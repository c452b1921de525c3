import Mathlib.Data.List.Nodup
import Mathlib.Data.List.GetD
import Mathlib.Data.List.Perm.Basic
import Mathlib.Order.Nat
import RatThings.Sessions.Planning

/-!
# What a plan accepts

A plan extends a document by exactly the input it accepts: the messages go to bindings, the tool
results to commands, and the ordinals continue the sequence. `Plan.Grows` says this for one stretch
of events; the step lemma `planEvent_grows` has one case for each kind of event, and stretches
compose.

`Plan.Ok` is the invariant of the fold. Its clause about fresh Turn ids is what keeps the Turns of
one request apart from each other and from the saved ones. The ids come from one list for the whole
request, and an event takes those at its index, so that what is left is fresh for the next event.

For a whole request, `SessionState.Accepts` says the same of two documents, provided that the first
is well formed and that the execution shows no Turn as running that the document has ended.
-/

namespace RatThings

/-! ## Accepted input by kind -/

def Accepted.message? : Accepted → Option SessionMessage
  | .message m => some m
  | .toolResult .. => none

def Accepted.result? : Accepted → Option (String × String × ℕ)
  | .message _ => none
  | .toolResult turnId callId acceptedOrdinal => some (turnId, callId, acceptedOrdinal)

def acceptedMessages (accepted : List Accepted) : List SessionMessage :=
  accepted.filterMap Accepted.message?

def acceptedResults (accepted : List Accepted) : List (String × String × ℕ) :=
  accepted.filterMap Accepted.result?

/-- The calls that the results answer, as they are remembered. -/
def resultKeys (results : List (String × String × ℕ)) : List String :=
  results.map fun result ↦ callKey result.1 result.2.1

@[simp] theorem acceptedMessages_append (a b : List Accepted) :
    acceptedMessages (a ++ b) = acceptedMessages a ++ acceptedMessages b :=
  List.filterMap_append

@[simp] theorem acceptedResults_append (a b : List Accepted) :
    acceptedResults (a ++ b) = acceptedResults a ++ acceptedResults b :=
  List.filterMap_append

@[simp] theorem acceptedMessages_map_message (messages : List SessionMessage) :
    acceptedMessages (messages.map .message) = messages := by
  rw [acceptedMessages, List.filterMap_map]
  exact List.filterMap_some

@[simp] theorem acceptedResults_map_message (messages : List SessionMessage) :
    acceptedResults (messages.map .message) = [] := by
  induction messages with
  | nil => rfl
  | cons m messages ih => simp [acceptedResults, Accepted.result?]

@[simp] theorem commandResults_append (a b : List SessionCommand) :
    commandResults (a ++ b) = commandResults a ++ commandResults b :=
  List.filterMap_append

/-! ## The messages of one event

Each message is anchored behind the one before it, and the first one behind the Turn's last item. -/

@[simp] theorem length_planMessages (input : List InputMessage) (ids : List String)
    (after : Option String) (ordinal : ℕ) :
    (planMessages input ids after ordinal).length = input.length := by
  induction input generalizing ids after ordinal with
  | nil => rfl
  | cons message input ih => simp [planMessages, ih]

theorem planMessages_message (input : List InputMessage) (ids : List String)
    (after : Option String) (ordinal : ℕ) :
    (planMessages input ids after ordinal).map (·.message) = input := by
  induction input generalizing ids after ordinal with
  | nil => rfl
  | cons message input ih => simp [planMessages, ih]

theorem planMessages_ordinal (input : List InputMessage) (ids : List String)
    (after : Option String) (ordinal : ℕ) :
    (planMessages input ids after ordinal).map (·.acceptedOrdinal) =
      List.range' ordinal input.length := by
  induction input generalizing ids after ordinal with
  | nil => rfl
  | cons message input ih => simp [planMessages, ih, List.range'_succ]

theorem planMessages_id {input : List InputMessage} {ids : List String}
    (h : input.length ≤ ids.length) (after : Option String) (ordinal : ℕ) :
    (planMessages input ids after ordinal).map (·.id) = ids.take input.length := by
  induction input generalizing ids after ordinal with
  | nil => rfl
  | cons message input ih =>
    cases ids with
    | nil => simp at h
    | cons id ids =>
      have h' : input.length ≤ ids.length := by simpa using h
      simp [planMessages, ih h']

/-! ## Bindings -/

/-- The Turns that may be given input. -/
def activeCount (turns : List SessionTurnBinding) : ℕ := turns.countP (·.isActive)

theorem activeBinding_mem {turns : List SessionTurnBinding} {active : SessionTurnBinding}
    (h : activeBinding turns = some active) : active ∈ turns ∧ active.isActive :=
  ⟨List.mem_reverse.mp (List.mem_of_find?_eq_some h), List.find?_some h⟩

theorem activeCount_eq_zero {turns : List SessionTurnBinding} (h : activeBinding turns = none) :
    activeCount turns = 0 := by
  rw [activeCount, List.countP_eq_zero]
  intro binding hb
  exact List.find?_eq_none.mp h binding (List.mem_reverse.mpr hb)

theorem updateTurn_cons (b : SessionTurnBinding) (turns : List SessionTurnBinding)
    (turnId : String) (f : SessionTurnBinding → SessionTurnBinding) :
    updateTurn (b :: turns) turnId f =
      (if b.turn.id = turnId then f b else b) :: updateTurn turns turnId f := rfl

theorem updateTurn_ids {turns : List SessionTurnBinding} {turnId : String}
    {f : SessionTurnBinding → SessionTurnBinding} (hf : ∀ b, (f b).turn.id = b.turn.id) :
    (updateTurn turns turnId f).map (·.turn.id) = turns.map (·.turn.id) := by
  rw [updateTurn, List.map_map]
  refine List.map_congr_left fun b _ ↦ ?_
  simp only [Function.comp_apply]
  split <;> simp [hf]

theorem activeCount_updateTurn_le {turns : List SessionTurnBinding} {turnId : String}
    {f : SessionTurnBinding → SessionTurnBinding} (hf : ∀ b, (f b).isActive → b.isActive) :
    activeCount (updateTurn turns turnId f) ≤ activeCount turns := by
  rw [activeCount, updateTurn, List.countP_map]
  refine List.countP_mono_left fun b _ hb ↦ ?_
  simp only [Function.comp_apply] at hb
  split at hb
  · exact hf b hb
  · exact hb

/-- Giving messages to one of several Turns with distinct ids adds them once. -/
theorem updateTurn_messages {turns : List SessionTurnBinding} {active : SessionTurnBinding}
    (hd : (turns.map (·.turn.id)).Nodup) (hmem : active ∈ turns) (messages : List SessionMessage) :
    ((updateTurn turns active.turn.id (·.receive messages)).flatMap (·.input)).Perm
      (turns.flatMap (·.input) ++ messages) := by
  induction turns with
  | nil => cases hmem
  | cons b turns ih =>
    rw [List.map_cons, List.nodup_cons] at hd
    rcases List.mem_cons.mp hmem with rfl | hmem
    · -- No other binding has this id.
      have hrest : updateTurn turns active.turn.id (·.receive messages) = turns := by
        refine (List.map_congr_left fun b hb ↦ ?_).trans (List.map_id' turns)
        exact if_neg fun he ↦ hd.1 (List.mem_map.mpr ⟨b, hb, he⟩)
      rw [updateTurn_cons, if_pos rfl, hrest, List.flatMap_cons, List.flatMap_cons,
        SessionTurnBinding.receive, List.append_assoc, List.append_assoc]
      exact List.perm_append_comm.append_left _
    · have hne : b.turn.id ≠ active.turn.id := fun he ↦
        hd.1 (he ▸ List.mem_map.mpr ⟨active, hmem, rfl⟩)
      rw [updateTurn_cons, if_neg hne, List.flatMap_cons, List.flatMap_cons, List.append_assoc]
      exact (ih hd.2 hmem).append_left _

/-- Every Turn is still there, with at least the input it had. -/
def TurnsExtend (old new : List SessionTurnBinding) : Prop :=
  ∀ b ∈ old, ∃ b' ∈ new, b'.turn.id = b.turn.id ∧ b.input <+: b'.input

theorem TurnsExtend.refl (turns : List SessionTurnBinding) : TurnsExtend turns turns :=
  fun b hb ↦ ⟨b, hb, rfl, List.prefix_rfl⟩

theorem TurnsExtend.trans {a b c : List SessionTurnBinding} (h : TurnsExtend a b)
    (h' : TurnsExtend b c) : TurnsExtend a c := by
  intro x hx
  obtain ⟨y, hy, hid, hinput⟩ := h x hx
  obtain ⟨z, hz, hid', hinput'⟩ := h' y hy
  exact ⟨z, hz, hid'.trans hid, hinput.trans hinput'⟩

/-- Changing the bindings one by one, without taking input away. -/
theorem turnsExtend_map {turns : List SessionTurnBinding}
    {f : SessionTurnBinding → SessionTurnBinding}
    (hf : ∀ b ∈ turns, (f b).turn.id = b.turn.id ∧ b.input <+: (f b).input) :
    TurnsExtend turns (turns.map f) :=
  fun b hb ↦ ⟨f b, List.mem_map_of_mem hb, hf b hb⟩

theorem turnsExtend_updateTurn {turns : List SessionTurnBinding} {turnId : String}
    {f : SessionTurnBinding → SessionTurnBinding}
    (hf : ∀ b, (f b).turn.id = b.turn.id ∧ b.input <+: (f b).input) :
    TurnsExtend turns (updateTurn turns turnId f) := by
  refine turnsExtend_map fun b _ ↦ ?_
  split
  · exact hf b
  · exact ⟨rfl, List.prefix_rfl⟩

/-! ## Growth

What a stretch of events accepts, on both sides: where it is found in the plan, and that the events
ask for it. -/

/-- The invariant of the planner before the event with this index. -/
structure Plan.Ok (ids : PlanIds) (index : ℕ) (plan : Plan) : Prop where
  /-- No two bindings are of one Turn. -/
  distinct : (plan.turns.map (·.turn.id)).Nodup
  /-- The Turn ids for the events to come are unused. -/
  fresh : ∀ id ∈ ids.turnIds.drop index, id ∉ plan.turns.map (·.turn.id)
  /-- At most one Turn may be given input. -/
  active : activeCount plan.turns ≤ 1
  /-- No call has two results. -/
  calls : plan.completedCalls.Nodup

/-- `plan'` is `plan` with the input in `new` accepted, which is what these events ask for. -/
structure Plan.Grows (ids : PlanIds) (plan : Plan) (events : List SessionInput)
    (new : List Accepted) (plan' : Plan) : Prop where
  accepted : plan'.accepted = plan.accepted ++ new
  messages : (plan'.turns.flatMap (·.input)).Perm
    (plan.turns.flatMap (·.input) ++ acceptedMessages new)
  inputs : TurnsExtend plan.turns plan'.turns
  results : commandResults plan'.commands = commandResults plan.commands ++ acceptedResults new
  ordinals : new.map (·.ordinal) = List.range' plan.acceptedOrdinal new.length
  next : plan'.acceptedOrdinal = plan.acceptedOrdinal + new.length
  contents : (acceptedMessages new).map (·.message) = inputMessages events
  offset : plan'.messageOffset = plan.messageOffset + (inputMessages events).length
  messageIds : (acceptedMessages new).map (·.id) =
    (ids.messageIds.drop plan.messageOffset).take (inputMessages events).length
  calls : plan'.completedCalls = plan.completedCalls ++ resultKeys (acceptedResults new)
  turnIds : ∀ id ∈ plan'.turns.map (·.turn.id),
    id ∈ plan.turns.map (·.turn.id) ∨ id ∈ ids.turnIds

theorem Plan.Grows.refl (ids : PlanIds) (plan : Plan) : plan.Grows ids [] [] plan :=
  { accepted := (List.append_nil _).symm
    messages := by simp [acceptedMessages]
    inputs := .refl _
    results := by simp [acceptedResults]
    ordinals := rfl
    next := rfl
    contents := rfl
    offset := rfl
    messageIds := rfl
    calls := by simp [acceptedResults, resultKeys]
    turnIds := fun _ h ↦ .inl h }

/-- Stretches of events compose. -/
theorem Plan.Grows.trans {ids : PlanIds} {a b c : Plan} {es es' : List SessionInput}
    {new new' : List Accepted} (h : a.Grows ids es new b) (h' : b.Grows ids es' new' c) :
    a.Grows ids (es ++ es') (new ++ new') c where
  accepted := by rw [h'.accepted, h.accepted, List.append_assoc]
  messages := by
    rw [acceptedMessages_append, ← List.append_assoc]
    exact h'.messages.trans (h.messages.append_right _)
  inputs := h.inputs.trans h'.inputs
  results := by rw [h'.results, h.results, acceptedResults_append, List.append_assoc]
  ordinals := by
    rw [List.map_append, h.ordinals, h'.ordinals, h.next, List.length_append,
      ← List.range'_append_1]
  next := by rw [h'.next, h.next, List.length_append, Nat.add_assoc]
  contents := by
    rw [acceptedMessages_append, List.map_append, h.contents, h'.contents, inputMessages,
      inputMessages, inputMessages, List.flatMap_append]
  offset := by
    rw [h'.offset, h.offset, Nat.add_assoc, ← List.length_append, inputMessages, inputMessages,
      inputMessages, List.flatMap_append]
  messageIds := by
    rw [acceptedMessages_append, List.map_append, h.messageIds, h'.messageIds, h.offset,
      ← List.drop_drop, inputMessages, inputMessages, inputMessages, List.flatMap_append,
      List.length_append, List.take_add]
  calls := by
    rw [h'.calls, h.calls, acceptedResults_append, resultKeys, resultKeys, resultKeys,
      List.map_append, List.append_assoc]
  turnIds := fun id hid ↦ (h'.turnIds id hid).elim (h.turnIds id) .inr

/-! ## One event

A message steers the active Turn or starts a new one. Either way what it accepts is the same. -/

section

variable {observation : SessionObservation} {ids : PlanIds} {now index : ℕ} {plan plan' : Plan}

/-- The next event leaves at most the Turn ids it could use behind. -/
theorem fresh_succ (h : ∀ id ∈ ids.turnIds.drop index, id ∉ plan.turns.map (·.turn.id))
    {id : String} (hid : id ∈ ids.turnIds.drop (index + 1)) :
    id ∉ plan.turns.map (·.turn.id) := by
  refine h id ?_
  rw [← List.drop_drop] at hid
  exact List.mem_of_mem_drop hid

/-- A message is accepted as a whole, whichever Turn takes it. -/
theorem grows_message {input : List InputMessage} {turns : List SessionTurnBinding}
    {command : SessionCommand} {anchor : Option String} {messages : List SessionMessage}
    (hplanned : messages = planMessages input (ids.messageIds.drop plan.messageOffset) anchor
      plan.acceptedOrdinal)
    (hids : plan.messageOffset + input.length ≤ ids.messageIds.length)
    (hcommand : commandResults [command] = [])
    (hmessages : (turns.flatMap (·.input)).Perm (plan.turns.flatMap (·.input) ++ messages))
    (hinputs : TurnsExtend plan.turns turns)
    (hturnIds : ∀ id ∈ turns.map (·.turn.id),
      id ∈ plan.turns.map (·.turn.id) ∨ id ∈ ids.turnIds) :
    plan.Grows ids [.message input] (messages.map .message) { plan with
      turns
      commands := plan.commands ++ [command]
      messageOffset := plan.messageOffset + input.length
      acceptedOrdinal := plan.acceptedOrdinal + input.length
      accepted := plan.accepted ++ messages.map .message } := by
  have havail : input.length ≤ (ids.messageIds.drop plan.messageOffset).length := by
    rw [List.length_drop]
    omega
  have hcontents : inputMessages [.message input] = input := by simp [inputMessages]
  subst hplanned
  exact
    { accepted := rfl
      messages := by rwa [acceptedMessages_map_message]
      inputs := hinputs
      results := by rw [acceptedResults_map_message, commandResults_append, hcommand]
      ordinals := by
        rw [List.map_map, List.length_map, length_planMessages]
        exact planMessages_ordinal _ _ _ _
      next := by rw [List.length_map, length_planMessages]
      contents := by rw [acceptedMessages_map_message, planMessages_message, hcontents]
      offset := by rw [hcontents]
      messageIds := by rw [acceptedMessages_map_message, planMessages_id havail, hcontents]
      calls := by simp [resultKeys]
      turnIds := hturnIds }

theorem planMessageEvent_grows {input : List InputMessage} (hok : plan.Ok ids index)
    (hindex : index < ids.turnIds.length) (hnodup : ids.turnIds.Nodup)
    (hids : plan.messageOffset + input.length ≤ ids.messageIds.length)
    (h : planMessageEvent observation ids now index plan input = .ok plan') :
    plan'.Ok ids (index + 1) ∧ ∃ new, plan.Grows ids [.message input] new plan' := by
  unfold planMessageEvent at h
  split at h
  · cases h
  split at h
  · next active hactive =>
    cases h
    obtain ⟨hmem, -⟩ := activeBinding_mem hactive
    have hturns (messages : List SessionMessage) :
        (updateTurn plan.turns active.turn.id (·.receive messages)).map (·.turn.id) =
          plan.turns.map (·.turn.id) := updateTurn_ids fun _ ↦ rfl
    refine ⟨⟨?_, fun id hid ↦ ?_, le_trans (activeCount_updateTurn_le ?_) hok.active,
      hok.calls⟩, _, grows_message rfl hids rfl (updateTurn_messages hok.distinct hmem _)
        (turnsExtend_updateTurn fun b ↦ ⟨rfl, List.prefix_append _ _⟩)
        fun id hid ↦ .inl (by rwa [hturns] at hid)⟩
    · rw [hturns]
      exact hok.distinct
    · rw [hturns]
      exact fresh_succ hok.fresh hid
    · exact fun _ hb ↦ hb
  · next hnone =>
    cases h
    have hget : ids.turnIds.getD index "" = ids.turnIds[index] :=
      List.getD_eq_getElem _ _ hindex
    have hnew : ids.turnIds[index] ∉ plan.turns.map (·.turn.id) :=
      hok.fresh _ (List.mem_drop_iff_getElem.mpr ⟨0, by omega, by simp⟩)
    refine ⟨⟨?_, fun id hid ↦ ?_, ?_, hok.calls⟩, _, grows_message rfl hids rfl ?_
      (fun b hb ↦ ⟨b, List.mem_append_left _ hb, rfl, List.prefix_rfl⟩) fun id hid ↦ ?_⟩
    · rw [List.map_append, List.nodup_append]
      refine ⟨hok.distinct, List.nodup_singleton _, fun a ha b hb hab ↦ hnew ?_⟩
      rw [List.map_singleton, List.mem_singleton] at hb
      rwa [hab, hb, hget] at ha
    · rw [List.map_append, List.mem_append]
      refine fun hid' ↦ hid'.elim (fresh_succ hok.fresh hid) fun hid' ↦ ?_
      rw [List.map_singleton, List.mem_singleton, hget] at hid'
      -- The id of this event does not occur again among the ids for the later ones.
      obtain ⟨i, hi, he⟩ := List.mem_drop_iff_getElem.mp hid
      have := (List.Nodup.getElem_inj_iff hnodup).mp (he.trans hid')
      omega
    · rw [activeCount, List.countP_append, ← activeCount, activeCount_eq_zero hnone, Nat.zero_add]
      exact List.countP_le_length
    · rw [List.flatMap_append]
      simp
    · rw [List.map_append, List.mem_append, List.map_singleton, List.mem_singleton, hget] at hid
      refine hid.imp_right fun he ↦ ?_
      rw [he]
      exact List.getElem_mem hindex

theorem planCancelEvent_grows (hok : plan.Ok ids index) :
    (planCancelEvent plan).Ok ids (index + 1) ∧
      ∃ new, plan.Grows ids [.cancel] new (planCancelEvent plan) := by
  unfold planCancelEvent
  split
  · next active hactive =>
    have hids : (updateTurn plan.turns active.turn.id fun binding ↦
        { binding with cancelRequested := true }).map (·.turn.id) =
        plan.turns.map (·.turn.id) := updateTurn_ids fun _ ↦ rfl
    have hinput : ((updateTurn plan.turns active.turn.id fun binding ↦
        { binding with cancelRequested := true }).flatMap (·.input)) =
        plan.turns.flatMap (·.input) := by
      rw [updateTurn, List.flatMap_map]
      refine List.flatMap_congr fun b _ ↦ ?_
      split <;> rfl
    refine ⟨⟨?_, fun id hid ↦ ?_, le_trans (activeCount_updateTurn_le fun b hb ↦ ?_) hok.active,
      hok.calls⟩, [], ?_⟩
    · rw [hids]
      exact hok.distinct
    · rw [hids]
      exact fresh_succ hok.fresh hid
    · simp [SessionTurnBinding.isActive] at hb
    · exact
        { accepted := (List.append_nil _).symm
          messages := by rw [hinput]; simp [acceptedMessages]
          inputs := turnsExtend_updateTurn fun b ↦ ⟨rfl, List.prefix_rfl⟩
          results := by simp [acceptedResults, commandResults]
          ordinals := rfl
          next := rfl
          contents := rfl
          offset := rfl
          messageIds := rfl
          calls := by simp [acceptedResults, resultKeys]
          turnIds := fun id hid ↦ .inl (by rwa [hids] at hid) }
  · exact ⟨⟨hok.distinct, fun _ ↦ fresh_succ hok.fresh, hok.active, hok.calls⟩, [],
      { Plan.Grows.refl ids plan with contents := rfl, offset := rfl, messageIds := rfl }⟩

theorem planToolResultEvent_grows {event : ToolResultInput} (hok : plan.Ok ids index)
    (h : planToolResultEvent observation ids plan event = .ok plan') :
    plan'.Ok ids (index + 1) ∧ ∃ new, plan.Grows ids [.toolResult event] new plan' := by
  unfold planToolResultEvent at h
  split at h
  · cases h
  next hpending =>
  split at h
  · cases h
  split at h
  · cases h
  cases h
  have hcall : callKey event.turnId event.callId ∉ plan.completedCalls := by
    simp only [callPending, Bool.or_eq_true, not_or, Bool.not_eq_true', Bool.and_eq_false_iff]
      at hpending
    exact (show _ ∧ _ by simpa using hpending.1).1
  refine ⟨⟨hok.distinct, fun _ ↦ fresh_succ hok.fresh, hok.active, ?_⟩,
    [.toolResult event.turnId event.callId plan.acceptedOrdinal], ?_⟩
  · rw [List.nodup_append]
    refine ⟨hok.calls, List.nodup_singleton _, fun a ha b hb hab ↦ hcall ?_⟩
    rwa [hab, List.mem_singleton.mp hb] at ha
  · exact
      { accepted := rfl
        messages := by
          rw [show acceptedMessages [_] = [] from rfl, List.append_nil]
        inputs := .refl _
        results := by simp [acceptedResults, Accepted.result?, commandResults]
        ordinals := rfl
        next := rfl
        contents := rfl
        offset := rfl
        messageIds := rfl
        calls := rfl
        turnIds := fun _ hid ↦ .inl hid }

/-- **The step lemma.** An event that is planned accepts what it asks for. -/
theorem planEvent_grows {event : SessionInput} (hok : plan.Ok ids index)
    (hindex : index < ids.turnIds.length) (hnodup : ids.turnIds.Nodup)
    (hids : plan.messageOffset + (inputMessages [event]).length ≤ ids.messageIds.length)
    (h : planEvent observation ids now index plan event = .ok plan') :
    plan'.Ok ids (index + 1) ∧ ∃ new, plan.Grows ids [event] new plan' := by
  cases event with
  | message input =>
    exact planMessageEvent_grows hok hindex hnodup (by simpa [inputMessages] using hids) h
  | cancel =>
    cases h
    exact planCancelEvent_grows hok
  | toolResult event => exact planToolResultEvent_grows hok h

/-- **The run lemma.** A planned request accepts what its events ask for. -/
theorem planEvents_grows {events : List SessionInput} (hok : plan.Ok ids index)
    (hindex : index + events.length ≤ ids.turnIds.length) (hnodup : ids.turnIds.Nodup)
    (hids : plan.messageOffset + (inputMessages events).length ≤ ids.messageIds.length)
    (h : planEvents observation ids now index plan events = .ok plan') :
    plan'.Ok ids (index + events.length) ∧ ∃ new, plan.Grows ids events new plan' := by
  induction events generalizing index plan with
  | nil =>
    cases h
    exact ⟨hok, [], .refl ids _⟩
  | cons event events ih =>
    have hsplit : inputMessages (event :: events) =
        inputMessages [event] ++ inputMessages events := by simp [inputMessages]
    rw [hsplit, List.length_append] at hids
    rw [List.length_cons] at hindex
    rw [planEvents] at h
    cases hstep : planEvent observation ids now index plan event with
    | error e =>
      rw [hstep] at h
      cases h
    | ok next =>
      rw [hstep] at h
      obtain ⟨hok', new, hnew⟩ := planEvent_grows hok (by omega) hnodup (by omega) hstep
      obtain ⟨hok'', rest, hrest⟩ := ih hok' (by omega) (by rw [hnew.offset]; omega) h
      rw [List.length_cons, ← Nat.add_assoc, Nat.add_right_comm]
      exact ⟨hok'', new ++ rest, hnew.trans hrest⟩

end

/-! ## A request -/

/-- The calls a document has results for are the calls its results answer. -/
theorem length_resultItems (key : String) (commands : List SessionCommand) (k : ℕ) :
    ((commands.zipIdx k).filterMap fun p ↦ match p.1 with
      | .toolResult turnId _ _ event => some (FunctionResultItem.mk
          ("fresult_" ++ key ++ "_" ++ toString p.2) turnId event.callId event.output event.error
          event.success)
      | _ => none).length = (commandResults commands).length := by
  induction commands generalizing k with
  | nil => rfl
  | cons command commands ih =>
    cases command <;> simp [List.zipIdx_cons, commandResults] <;> simpa [commandResults] using ih _

theorem length_functionResultItems (state : SessionState) :
    (functionResultItems state).length = state.results.length := by
  rw [functionResultItems, SessionState.results, List.length_flatMap, List.length_flatMap]
  congr 1
  exact List.map_congr_left fun entry _ ↦ length_resultItems entry.1 _ 0

/-- The invariant of a document on its own: distinct Turns, one of them active at most, and no call
answered twice. -/
structure SessionState.WellFormed (state : SessionState) : Prop where
  distinct : (state.turns.map (·.turn.id)).Nodup
  active : activeCount state.turns ≤ 1
  calls : (resultKeys state.results).Nodup

/-- The execution never shows a Turn that has ended as running again. -/
def SessionObservation.Respects (observation : SessionObservation) (state : SessionState) : Prop :=
  ∀ binding ∈ state.turns, terminalTurn binding.turn → ∀ item,
    (observation.turns.find? fun item ↦ item.turn.id = binding.turn.id) = some item →
      terminalTurn item.turn

/-- `state'` is `state` with the input in `accepted` added. -/
structure SessionState.Accepts (state : SessionState) (ids : PlanIds) (events : List SessionInput)
    (planned : PlannedInput) : Prop where
  wellFormed : (planned.state.turns.map (·.turn.id)).Nodup ∧ activeCount planned.state.turns ≤ 1
  messages : planned.state.messages.Perm (state.messages ++ acceptedMessages planned.accepted)
  inputs : TurnsExtend state.turns planned.state.turns
  results : commandResults planned.commands = acceptedResults planned.accepted
  calls : (resultKeys (state.results ++ commandResults planned.commands)).Nodup
  ordinals : planned.accepted.map (·.ordinal) =
    List.range' (state.messages.length + state.results.length) planned.accepted.length
  contents : (acceptedMessages planned.accepted).map (·.message) = inputMessages events
  messageIds : (acceptedMessages planned.accepted).map (·.id) =
    ids.messageIds.take (inputMessages events).length
  turnIds : ∀ id ∈ planned.state.turns.map (·.turn.id),
    id ∈ state.turns.map (·.turn.id) ∨ id ∈ ids.turnIds
  receipts : planned.state.receipts = state.receipts
  closing : planned.state.closing = state.closing ∧ planned.state.forkLock = state.forkLock

/-- A Turn is looked up in an observation by its id. -/
theorem observedTurn_id (observation : SessionObservation) (turn : Turn) :
    (((observation.turns.find? fun item ↦ item.turn.id = turn.id).map (·.turn)).getD turn).id =
      turn.id := by
  cases h : observation.turns.find? fun item ↦ item.turn.id = turn.id with
  | none => rfl
  | some item => simpa using List.find?_some h

theorem observedTurns_ids (observation : SessionObservation) (state : SessionState) :
    (observedTurns observation state).map (·.turn.id) = state.turns.map (·.turn.id) := by
  rw [observedTurns, List.map_map]
  exact List.map_congr_left fun b _ ↦ observedTurn_id observation b.turn

theorem turnsExtend_observedTurns (observation : SessionObservation) (state : SessionState) :
    TurnsExtend state.turns (observedTurns observation state) :=
  turnsExtend_map fun b _ ↦ ⟨observedTurn_id observation b.turn, List.prefix_rfl⟩

theorem observedTurns_messages (observation : SessionObservation) (state : SessionState) :
    (observedTurns observation state).flatMap (·.input) = state.messages := by
  rw [observedTurns, List.flatMap_map, SessionState.messages]

theorem activeCount_observedTurns_le {observation : SessionObservation} {state : SessionState}
    (h : observation.Respects state) :
    activeCount (observedTurns observation state) ≤ activeCount state.turns := by
  rw [activeCount, observedTurns, List.countP_map]
  refine List.countP_mono_left fun b hb hactive ↦ ?_
  simp only [Function.comp_apply, SessionTurnBinding.isActive, Bool.and_eq_true] at hactive ⊢
  refine ⟨hactive.1, ?_⟩
  by_contra hterm
  simp only [Bool.not_eq_true', Bool.not_eq_false] at hterm
  -- A Turn that ended in the document is observed as it is, or as another that ended.
  cases hf : observation.turns.find? fun item ↦ item.turn.id = b.turn.id with
  | none => simp [hf, hterm] at hactive
  | some item =>
    have hitem := h b hb hterm item hf
    simp [hf, hitem] at hactive

theorem planSessionInput_accepts {observation : SessionObservation} {ids : PlanIds} {now : ℕ}
    {state : SessionState} {events : List SessionInput} {planned : PlannedInput}
    (hwf : state.WellFormed) (hobs : observation.Respects state)
    (hturns : events.length ≤ ids.turnIds.length) (hnodup : ids.turnIds.Nodup)
    (hfresh : ∀ id ∈ ids.turnIds, id ∉ state.turns.map (·.turn.id))
    (hmessages : (inputMessages events).length ≤ ids.messageIds.length)
    (h : planSessionInput observation ids now state events = .ok planned) :
    state.Accepts ids events planned := by
  unfold planSessionInput at h
  split at h
  · cases h
  split at h
  · cases h
  cases hplan : planEvents observation ids now 0 (initialPlan observation state) events with
  | error e =>
    rw [hplan] at h
    cases h
  | ok plan =>
    rw [hplan] at h
    cases h
    have hok : (initialPlan observation state).Ok ids 0 :=
      { distinct := by
          rw [initialPlan, observedTurns_ids]
          exact hwf.distinct
        fresh := fun id hid ↦ by
          rw [initialPlan, observedTurns_ids]
          exact hfresh id hid
        active := le_trans (activeCount_observedTurns_le hobs) hwf.active
        calls := hwf.calls }
    -- Planning the events keeps the plan in order, and what it adds is the accepted input.
    obtain ⟨hok', new, hnew⟩ := planEvents_grows hok (by omega) hnodup
      (by simpa [initialPlan] using hmessages) hplan
    have haccepted : plan.accepted = new := hnew.accepted
    have hresults : commandResults plan.commands = acceptedResults new := hnew.results
    exact
      { wellFormed := ⟨hok'.distinct, hok'.active⟩
        messages := by
          rw [haccepted, ← observedTurns_messages observation state]
          exact hnew.messages
        inputs := (turnsExtend_observedTurns observation state).trans hnew.inputs
        results := by rw [haccepted, hresults]
        calls := by
          have hcalls : plan.completedCalls =
            resultKeys state.results ++ resultKeys (acceptedResults new) := hnew.calls
          rw [hresults, resultKeys, List.map_append]
          exact hcalls ▸ hok'.calls
        ordinals := by
          have hord := hnew.ordinals
          rw [haccepted, hord, initialPlan, length_functionResultItems, SessionState.messages,
            List.length_flatMap]
        contents := by rw [haccepted, hnew.contents]
        messageIds := by
          rw [haccepted, hnew.messageIds]
          rfl
        turnIds := fun id hid ↦ by
          have := hnew.turnIds id hid
          rwa [initialPlan, observedTurns_ids] at this
        receipts := rfl
        closing := ⟨rfl, rfl⟩ }

end RatThings
