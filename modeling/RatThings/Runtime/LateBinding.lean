import Mathlib.Data.List.Infix
import RatThings.Runtime.ItemOwner
import RatThings.Runtime.Steps

/-!
# Binding a Turn early or late

The API id of a root Turn may arrive before the notifications of the Turn or after some of them. A
binding that comes late renames: the Turn and its items, the traces that name it as their parent and
the actions that wait for it (`Rebinding`).

A notification does not look at ids except to compare them, so renaming before it and renaming after
it come to the same, as long as the two ids belong to no other Turn (`Rebinding.Separate`). This is
proved for each thing a notification does to a Turn, then for a whole notification, and by induction
for a run, in the form of an equation between states: the renamed state is reduced to the renaming
of the reduced one.

Ids that are empty, missing or shared break the comparison, and each of the conditions excludes one
way in which that happens.
-/

namespace RatThings.Runtime

open Concurrent SessionRuntimeState

/-! ## Places -/

section

variable {α β : Type}

theorem place?_mapIdx {p : α → Bool} {f : ℕ → α → α} (hp : ∀ i a, p (f i a) = p a) (l : List α) :
    place? p (l.mapIdx f) = (place? p l).map fun found ↦ (found.1, f found.1 found.2) := by
  induction l generalizing f with
  | nil => rfl
  | cons a l ih =>
    rw [List.mapIdx_cons, place?, place?, hp 0 a]
    split
    · rfl
    · rw [ih fun i b ↦ hp (i + 1) b]
      rcases place? p l with _ | found <;> rfl

theorem lastPlace?_mapIdx {p : α → Bool} {f : ℕ → α → α} (hp : ∀ i a, p (f i a) = p a)
    (l : List α) :
    lastPlace? p (l.mapIdx f) = (lastPlace? p l).map fun found ↦ (found.1, f found.1 found.2) := by
  induction l generalizing f with
  | nil => rfl
  | cons a l ih =>
    rw [List.mapIdx_cons, lastPlace?, lastPlace?, ih fun i b ↦ hp (i + 1) b, hp 0 a]
    rcases lastPlace? p l with _ | found
    · dsimp only [Option.map_none]
      split <;> rfl
    · rfl

theorem any_mapIdx {q q' : α → Bool} {f : ℕ → α → α} {l : List α}
    (h : ∀ i a, l[i]? = some a → q (f i a) = q' a) : (l.mapIdx f).any q = l.any q' := by
  induction l generalizing f with
  | nil => rfl
  | cons a l ih =>
    rw [List.mapIdx_cons, List.any_cons, List.any_cons, h 0 a rfl, ih fun i b hb ↦ h (i + 1) b hb]

theorem any_map_of_mem {q : β → Bool} {q' : α → Bool} {f : α → β} {l : List α}
    (h : ∀ a ∈ l, q (f a) = q' a) : (l.map f).any q = l.any q' := by
  induction l with
  | nil => rfl
  | cons a l ih =>
    rw [List.map_cons, List.any_cons, List.any_cons, h a List.mem_cons_self,
      ih fun b hb ↦ h b (List.mem_cons_of_mem a hb)]

/-- The first element with a property that its key decides stays where it is. -/
theorem place?_of_keys {p : α → Bool} {q : β → Bool} {key : α → β} (hp : ∀ a, p a = q (key a))
    {l l' : List α} (h : l.map key <+: l'.map key) {i : ℕ} {a : α}
    (hfound : place? p l = some (i, a)) : ∃ a', place? p l' = some (i, a') ∧ key a' = key a := by
  induction l generalizing l' i a with
  | nil => cases hfound
  | cons b l ih =>
    rcases l' with _ | ⟨b', l'⟩
    · exact absurd (List.prefix_nil.mp h) (List.cons_ne_nil _ _)
    · rw [List.map_cons, List.map_cons, List.cons_prefix_cons] at h
      obtain ⟨hkey, h⟩ := h
      rw [place?, hp, hkey, ← hp] at hfound
      rw [place?]
      split at hfound
      · next hb =>
        obtain ⟨rfl, rfl⟩ := Prod.ext_iff.mp (Option.some.inj hfound)
        rw [if_pos hb]
        exact ⟨b', rfl, hkey.symm⟩
      · next hb =>
        obtain ⟨⟨j, c⟩, hrest, heq⟩ := Option.map_eq_some_iff.mp hfound
        obtain ⟨rfl, rfl⟩ := Prod.ext_iff.mp heq
        obtain ⟨c', hfound', hkey'⟩ := ih h hrest
        rw [if_neg hb, hfound']
        exact ⟨c', rfl, hkey'⟩

end

/-! ## Notifications once more -/

/-- The place of a native Turn: where it is, or behind all others. -/
def placeOf (state : SessionRuntimeState) (threadId nativeTurnId : String) : ℕ :=
  ((state.bindingOf threadId nativeTurnId).map Prod.fst).getD state.turns.length

/-- A cumulative count for a Turn that is not the last of its thread. -/
def isHistorical (state : SessionRuntimeState) (event : SessionRuntimeEvent)
    (threadId nativeTurnId : String) : Bool :=
  event.method = "thread/tokenUsage/updated" && (state.bindingOf threadId nativeTurnId).isSome &&
    (state.lastOf threadId).map Prod.fst ≠ (state.bindingOf threadId nativeTurnId).map Prod.fst

theorem reduceTurn_eq {state : SessionRuntimeState} {event : SessionRuntimeEvent}
    {threadId nativeTurnId : String} : reduceTurn state event threadId nativeTurnId =
      if isHistorical state event threadId nativeTurnId then state
      else match advanceTurn event threadId (begun state event threadId nativeTurnId) with
        | none => state
        | some advance => { state with
            turns := putTurn state threadId nativeTurnId
              (finished state event threadId nativeTurnId advance).binding
            requiredActions := (finished state event threadId nativeTurnId advance).requiredActions
            threadUsage := (finished state event threadId nativeTurnId advance).threadUsage } := by
  unfold reduceTurn isHistorical
  dsimp only
  split
  · rfl
  · unfold putTurn
    change (match advanceTurn event threadId (begun state event threadId nativeTurnId) with
      | none => _ | some advance => _) = _
    rcases advanceTurn event threadId (begun state event threadId nativeTurnId) with _ | advance
    · rfl
    · rcases state.bindingOf threadId nativeTurnId with _ | ⟨index, binding⟩ <;> rfl

theorem getElem?_putTurn_placeOf {state : SessionRuntimeState} {threadId nativeTurnId : String}
    {binding : NativeTurnBinding} :
    (putTurn state threadId nativeTurnId binding)[placeOf state threadId nativeTurnId]? =
      some binding := by
  rw [putTurn, placeOf]
  rcases hfound : state.bindingOf threadId nativeTurnId with _ | ⟨index, found⟩
  · exact List.getElem?_concat_length
  · have hlt : index < state.turns.length :=
      (List.getElem?_eq_some_iff.mp (bindingOf_eq_some hfound).1).1
    exact List.getElem?_set_self hlt

/-! ## Renaming

The renaming is a function on states, given by a place and two ids. A Turn at another place keeps
its id, and only its parent may be renamed. -/

/-- The Turn at a place of the list changes its id to that of an API Turn. -/
structure Rebinding where
  index : ℕ
  previous : String
  turn : Turn

namespace Rebinding

variable (r : Rebinding)

def id (id : String) : String := if id = r.previous then r.turn.id else id

def action (action : RequiredAction) : RequiredAction := action.rename r.previous r.turn.id

def entry (i : ℕ) (binding : NativeTurnBinding) : NativeTurnBinding :=
  if i = r.index then binding.attach r.turn else binding.reparent r.previous r.turn.id

def state (state : SessionRuntimeState) : SessionRuntimeState :=
  { state with
    turns := state.turns.mapIdx r.entry
    requiredActions := state.requiredActions.map r.action }

def advance (i : ℕ) (advance : Advance) : Advance :=
  ⟨r.entry i advance.binding, advance.requiredActions.map r.action, advance.threadUsage⟩

/-- The Turn that is renamed has the old id and no other has, and none has the new one. -/
structure Placed (i : ℕ) (id : String) : Prop where
  own : i = r.index ↔ id = r.previous
  fresh : id ≠ r.turn.id

/-- Every Turn is placed, the renamed one is there, and no action names the new id. -/
structure Separate (state : SessionRuntimeState) : Prop where
  placed : ∀ i binding, state.turns[i]? = some binding → r.Placed i binding.turn.id
  there : r.index < state.turns.length
  actions : ∀ action ∈ state.requiredActions, action.isFor r.turn.id = false

variable {r} {i : ℕ} {binding : NativeTurnBinding}

/-- What changes in a Turn. -/
theorem entry_eq : r.entry i binding = { binding with
    turn := { binding.turn with
      id := if i = r.index then r.turn.id else binding.turn.id
      createdAt := if i = r.index then r.turn.createdAt else binding.turn.createdAt }
    items := if i = r.index then binding.items.map (·.ownedBy r.turn.id) else binding.items
    traceParentTurnId := if i = r.index then binding.traceParentTurnId
      else binding.traceParentTurnId.map r.id } := by
  rw [entry]
  split
  · rfl
  · rw [NativeTurnBinding.reparent]
    split
    · next hparent =>
      rw [hparent, Option.map_some, Rebinding.id, if_pos rfl]
    · next hparent =>
      have hsame : binding.traceParentTurnId.map r.id = binding.traceParentTurnId := by
        rcases hid : binding.traceParentTurnId with _ | parent
        · rfl
        · have hne : parent ≠ r.previous := by
            rintro rfl
            exact hparent hid
          rw [Option.map_some, Rebinding.id, if_neg hne]
      rw [hsame]

theorem entry_threadId : (r.entry i binding).threadId = binding.threadId := by rw [entry_eq]

theorem entry_nativeTurnId : (r.entry i binding).nativeTurnId = binding.nativeTurnId := by
  rw [entry_eq]

theorem Placed.entry_id (h : r.Placed i binding.turn.id) :
    (r.entry i binding).turn.id = r.id binding.turn.id := by
  rw [entry_eq, Rebinding.id]
  dsimp only
  by_cases hi : i = r.index
  · rw [if_pos hi, if_pos (h.own.mp hi)]
  · rw [if_neg hi, if_neg (mt h.own.mpr hi)]

/-- An action waits for the renamed id just if it waited for the id. -/
theorem isFor_action {action : RequiredAction} {id : String}
    (haction : action.isFor r.turn.id = false)
    (hid : id ≠ r.turn.id) : (r.action action).isFor (r.id id) = action.isFor id := by
  rcases action with ⟨callId, turn, name, arguments⟩ | environmentId
  · have hturn : turn ≠ r.turn.id := of_decide_eq_false haction
    rw [Rebinding.action, RequiredAction.rename, RequiredAction.isFor, RequiredAction.isFor]
    refine decide_eq_decide.mpr ?_
    rw [Rebinding.id]
    by_cases ht : turn = r.previous <;> by_cases hi : id = r.previous
    · simp [ht, hi]
    · simp [ht, hi, Ne.symm hid, Ne.symm hi]
    · simp [ht, hi, hturn]
    · simp [ht, hi]
  · rfl

theorem withoutActionsOf_map {actions : List RequiredAction} {id : String}
    (hactions : ∀ action ∈ actions, action.isFor r.turn.id = false) (hid : id ≠ r.turn.id) :
    withoutActionsOf (r.id id) (actions.map r.action) =
      (withoutActionsOf id actions).map r.action := by
  rw [withoutActionsOf, withoutActionsOf, List.filter_map]
  refine congrArg _ (List.filter_congr fun action hmem ↦ ?_)
  rw [Function.comp_apply, isFor_action (hactions action hmem) hid]

/-! ## What a notification does to a Turn

One lemma for each method. -/

variable {event : SessionRuntimeEvent} {adv : Advance} {threadId nativeTurnId : String}

/-- What is done to a renamed Turn compares its id with those of the actions. -/
structure Fits (r : Rebinding) (i : ℕ) (adv : Advance) : Prop where
  placed : r.Placed i adv.binding.turn.id
  actions : ∀ action ∈ adv.requiredActions, action.isFor r.turn.id = false

theorem Fits.withoutActionsOf (h : r.Fits i adv) :
    withoutActionsOf (r.entry i adv.binding).turn.id (adv.requiredActions.map r.action) =
      (withoutActionsOf adv.binding.turn.id adv.requiredActions).map r.action := by
  rw [h.placed.entry_id, withoutActionsOf_map h.actions h.placed.fresh]

theorem failTurn_advance (h : r.Fits i adv) :
    failTurn event (r.advance i adv) = (failTurn event adv).map (r.advance i) := by
  unfold failTurn
  split
  · rfl
  · dsimp only [Option.map_some, advance]
    rw [h.withoutActionsOf]
    simp only [entry_eq]

theorem startOrEndTurn_advance (h : r.Fits i adv) (nativeTurn : JsonValue) :
    startOrEndTurn event nativeTurn (r.advance i adv) =
      r.advance i (startOrEndTurn event nativeTurn adv) := by
  unfold startOrEndTurn
  dsimp only [advance]
  rw [h.withoutActionsOf, apply_ite (List.map r.action)]
  simp only [entry_eq]

theorem chargeResponse_advance :
    chargeResponse event (r.advance i adv) = (chargeResponse event adv).map (r.advance i) := by
  unfold chargeResponse
  rcases stringOf event.params "responseId" with _ | responseId
  · rfl
  rcases recordOf event.params "usage" with _ | usage
  · rfl
  dsimp only [advance]
  simp only [entry_eq]
  split
  · rfl
  · simp only [Option.map_some, advance, entry_eq]

theorem chargeTotals_advance :
    chargeTotals event threadId (r.advance i adv) =
      r.advance i (chargeTotals event threadId adv) := by
  unfold chargeTotals
  dsimp only [advance]
  simp only [entry_eq]
  rcases recordOf ((recordOf event.params "tokenUsage").getD (.object [])) "total" with _ | total
  · rcases recordOf ((recordOf event.params "tokenUsage").getD (.object [])) "last" with _ | last
    · rfl
    · dsimp only
      split <;> rfl
  · dsimp only
    split <;> rfl

theorem advanceTurn_advance (h : r.Fits i adv) :
    advanceTurn event threadId (r.advance i adv) =
      (advanceTurn event threadId adv).map (r.advance i) := by
  unfold advanceTurn
  dsimp only
  rw [failTurn_advance h, startOrEndTurn_advance h, chargeResponse_advance, chargeTotals_advance]
  split_ifs <;> rfl

theorem incompleteItems_ownedBy (turnId : String) (items : List AgentSessionItem) :
    incompleteItems (items.map (·.ownedBy turnId)) =
      (incompleteItems items).map (·.ownedBy turnId) := by
  rw [incompleteItems, incompleteItems, List.map_map, List.map_map]
  refine List.map_congr_left fun item _ ↦ ?_
  simp only [Function.comp_apply, AgentSessionItem.ownedBy]
  split <;> rfl

variable {state : SessionRuntimeState}

/-- The items that an event carries have ids. -/
def NamesItems (event : SessionRuntimeEvent) : Prop :=
  ∀ threadId nativeTurnId, ∀ json ∈ event.toJson :: completedItems event threadId nativeTurnId,
    NamesItem json

theorem projectItems_entry (hnames : NamesItems event) :
    projectItems (r.state state) event threadId nativeTurnId (r.entry i binding) =
      r.entry i (projectItems state event threadId nativeTurnId binding) := by
  have hroot : (r.state state).rootThreadId = state.rootThreadId := rfl
  have hagents : agentIdOf (r.state state) = agentIdOf state := rfl
  unfold projectItems
  rw [hroot, hagents]
  dsimp only
  by_cases hi : i = r.index
  · have hitems := @projectSessionItems_ownedBy r.turn.id binding.turn.id
      ⟨threadId ≠ state.rootThreadId, agentIdOf state⟩ _
        (hnames threadId nativeTurnId) binding.items
    simp only [entry_eq, if_pos hi]
    rw [hitems, incompleteItems_ownedBy, ← apply_ite (List.map _)]
  · simp only [entry_eq, if_neg hi]

/-- The action waits for this call of a Turn. -/
def asks (callId turnId : String) : RequiredAction → Bool
  | .functionCall call turn _ _ => call = callId && turn = turnId
  | .environmentConnection _ => false

theorem requestFunction_eq (tool callId : String) (hmethod : event.method = "item/tool/call")
    (htool : stringOf event.params "tool" = some tool)
    (hcall : stringOf event.params "callId" = some callId) :
    requestFunction event adv = { adv with
      binding := { adv.binding with turn := { adv.binding.turn with status := .waiting } }
      requiredActions :=
        if adv.requiredActions.any (asks callId adv.binding.turn.id) then adv.requiredActions
        else adv.requiredActions ++
          [.functionCall callId adv.binding.turn.id tool (event.params.get? "arguments")] } := by
  rw [requestFunction, htool, hcall, decide_eq_true hmethod]
  rfl

theorem requestFunction_advance (h : r.Fits i adv) :
    requestFunction event (r.advance i adv) = r.advance i (requestFunction event adv) := by
  by_cases hmethod : event.method = "item/tool/call"
  · rcases htool : stringOf event.params "tool" with _ | tool
    · simp [requestFunction, htool]
    rcases hcall : stringOf event.params "callId" with _ | callId
    · simp [requestFunction, hcall]
    have hknown : (adv.requiredActions.map r.action).any
          (asks callId (r.entry i adv.binding).turn.id) =
        adv.requiredActions.any (asks callId adv.binding.turn.id) := by
      refine any_map_of_mem fun action hmem ↦ ?_
      rw [h.placed.entry_id]
      have hfor := isFor_action (h.actions action hmem) h.placed.fresh
      rcases action with ⟨call, turnId, name, arguments⟩ | environmentId
      · exact congrArg (decide (call = callId) && ·) hfor
      · rfl
    rw [requestFunction_eq tool callId hmethod htool hcall,
      requestFunction_eq tool callId hmethod htool hcall]
    dsimp only [advance]
    simp only [hknown]
    have hasked : RequiredAction.functionCall callId (r.entry i adv.binding).turn.id tool
          (event.params.get? "arguments") =
        r.action (.functionCall callId adv.binding.turn.id tool
          (event.params.get? "arguments")) := by
      rw [h.placed.entry_id]
      rfl
    rw [hasked, ← List.map_singleton, ← List.map_append, ← apply_ite (List.map _)]
    simp only [entry_eq]
  · simp [requestFunction, hmethod]

theorem finished_advance (hnames : NamesItems event) (h : r.Fits i adv) :
    finished (r.state state) event threadId nativeTurnId (r.advance i adv) =
      r.advance i (finished state event threadId nativeTurnId adv) := by
  have hprojected : r.Fits i { adv with
      binding := projectItems state event threadId nativeTurnId adv.binding } :=
    ⟨h.placed, h.actions⟩
  rw [finished, finished, ← requestFunction_advance hprojected]
  dsimp only [advance]
  rw [projectItems_entry hnames]

/-! ## A notification about a Turn -/

theorem bindingOf_state : (r.state state).bindingOf threadId nativeTurnId =
    (state.bindingOf threadId nativeTurnId).map fun found ↦ (found.1, r.entry found.1 found.2) :=
  place?_mapIdx (fun i binding ↦ by rw [entry_threadId, entry_nativeTurnId]) state.turns

theorem lastOf_state : (r.state state).lastOf threadId =
    (state.lastOf threadId).map fun found ↦ (found.1, r.entry found.1 found.2) :=
  lastPlace?_mapIdx (fun i binding ↦ by rw [entry_threadId]) state.turns

theorem nativeTurnIdOf_state :
    nativeTurnIdOf (r.state state) event threadId = nativeTurnIdOf state event threadId := by
  rw [nativeTurnIdOf, nativeTurnIdOf, lastOf_state, Option.map_map]
  simp only [Function.comp_def, entry_nativeTurnId]

theorem isHistorical_state : isHistorical (r.state state) event threadId nativeTurnId =
    isHistorical state event threadId nativeTurnId := by
  rw [isHistorical, isHistorical, bindingOf_state, lastOf_state]
  simp only [Option.isSome_map, Option.map_map, Function.comp_def]

theorem putTurn_state :
    putTurn (r.state state) threadId nativeTurnId
        (r.entry (placeOf state threadId nativeTurnId) binding) =
      (putTurn state threadId nativeTurnId binding).mapIdx r.entry := by
  rw [putTurn, putTurn, placeOf, bindingOf_state]
  rcases state.bindingOf threadId nativeTurnId with _ | ⟨index, found⟩
  · exact (List.mapIdx_concat).symm
  · exact (List.mapIdx_set).symm

/-- A new Turn names its parent by the id that the parent then has. -/
theorem newTurn_state (h : r.Separate state) (now : ℚ) :
    newTurn (r.state state) threadId nativeTurnId now =
      r.entry state.turns.length (newTurn state threadId nativeTurnId now) := by
  have hlength : state.turns.length ≠ r.index := Nat.ne_of_gt h.there
  have hroot : (r.state state).rootThreadId = state.rootThreadId := rfl
  have hparent : ∀ p : NativeTurnBinding → Bool, (∀ i binding, p (r.entry i binding) = p binding) →
      ((lastPlace? p (r.state state).turns).map Prod.snd).map (·.turn.id) =
        (((lastPlace? p state.turns).map Prod.snd).map (·.turn.id)).map r.id := by
    intro p hp
    have hmap : lastPlace? p (r.state state).turns = _ := lastPlace?_mapIdx hp state.turns
    rw [hmap]
    rcases hfound : lastPlace? p state.turns with _ | ⟨j, parent⟩
    · rfl
    · have hplaced := h.placed j parent (lastPlace?_eq_some hfound).1
      simp only [Option.map_some, hplaced.entry_id]
  simp only [entry_eq, if_neg hlength]
  unfold newTurn
  simp only [hroot]
  by_cases hchild : threadId ≠ state.rootThreadId
  · simp only [if_pos hchild]
    rw [hparent _ fun i binding ↦ by simp only [entry_eq]]
    rfl
  · simp only [if_neg hchild]
    rfl

theorem turnOf_state (h : r.Separate state) (now : ℚ) :
    turnOf (r.state state) threadId nativeTurnId now =
      r.entry (placeOf state threadId nativeTurnId) (turnOf state threadId nativeTurnId now) := by
  rw [turnOf, turnOf, placeOf, bindingOf_state]
  rcases state.bindingOf threadId nativeTurnId with _ | found
  · exact newTurn_state h now
  · rfl

theorem begun_state (h : r.Separate state) :
    begun (r.state state) event threadId nativeTurnId =
      r.advance (placeOf state threadId nativeTurnId)
        (begun state event threadId nativeTurnId) := by
  rw [begun, begun, turnOf_state h]
  dsimp only [advance]
  simp only [entry_eq]
  rfl

/-- Whether a notification is left out does not depend on the id of its Turn. -/
theorem advanceTurn_eq_none {adv' : Advance}
    (h : adv'.binding.usageResponseIds = adv.binding.usageResponseIds)
    (hnone : advanceTurn event threadId adv = none) : advanceTurn event threadId adv' = none := by
  unfold advanceTurn at hnone ⊢
  split_ifs at hnone ⊢ with herror hturn hresponse
  · unfold failTurn at hnone ⊢
    split_ifs at hnone ⊢
    rfl
  · revert hnone
    unfold chargeResponse
    rcases stringOf event.params "responseId" with _ | responseId
    · exact (nomatch ·)
    rcases recordOf event.params "usage" with _ | usage
    · exact (nomatch ·)
    dsimp only
    rw [h]
    split
    · exact fun _ ↦ rfl
    · exact (nomatch ·)

/-- **A notification about a Turn, before the renaming and after it.** -/
theorem reduceTurn_state (h : r.Separate state) (hnames : NamesItems event)
    (hnext : ∀ i binding, (reduceTurn state event threadId nativeTurnId).turns[i]? = some binding →
      r.Placed i binding.turn.id) :
    reduceTurn (r.state state) event threadId nativeTurnId =
      r.state (reduceTurn state event threadId nativeTurnId) := by
  rw [reduceTurn_eq] at hnext ⊢
  rw [reduceTurn_eq, isHistorical_state, begun_state h]
  split
  · rfl
  · next hnot =>
    rw [if_neg hnot] at hnext
    rcases hadvance : advanceTurn event threadId (begun state event threadId nativeTurnId) with
      _ | advance
    · have hsame : (r.advance (placeOf state threadId nativeTurnId)
            (begun state event threadId nativeTurnId)).binding.usageResponseIds =
          (begun state event threadId nativeTurnId).binding.usageResponseIds := by
        simp only [Rebinding.advance, entry_eq]
      rw [advanceTurn_eq_none hsame hadvance]
    · rw [hadvance] at hnext
      have hid : (finished state event threadId nativeTurnId advance).binding.turn.id =
          (begun state event threadId nativeTurnId).binding.turn.id :=
        (finished_change hadvance).id
      have hplaced := hnext _ _ getElem?_putTurn_placeOf
      rw [hid] at hplaced
      have hfits : r.Fits (placeOf state threadId nativeTurnId)
          (begun state event threadId nativeTurnId) := ⟨hplaced, h.actions⟩
      have hadvanced := advanceTurn_advanced hadvance
      have hfits' : r.Fits (placeOf state threadId nativeTurnId) advance := by
        refine ⟨by rw [hadvanced.binding]; exact hplaced, fun action hmem ↦ ?_⟩
        rcases hadvanced.actions with hsame | hwithout
        · rw [hsame] at hmem
          exact h.actions action hmem
        · rw [hwithout] at hmem
          exact h.actions action (mem_withoutActionsOf.mp hmem).1
      rw [advanceTurn_advance hfits, hadvance, Option.map_some]
      dsimp only
      rw [finished_advance hnames hfits']
      dsimp only [Rebinding.advance]
      rw [putTurn_state]
      rfl

/-! ## Threads -/

theorem startThread_state {id : String} {thread : JsonValue} {now : ℚ} :
    startThread (r.state state) id thread now = r.state (startThread state id thread now) := by
  have hknows : (r.state state).knows = state.knows := rfl
  have hroot : (r.state state).rootThreadId = state.rootThreadId := rfl
  unfold startThread
  dsimp only
  simp only [hknows, hroot]
  rcases nonempty ((stringOf thread "parentThreadId").or
    (stringOf (spawnSource thread) "parent_thread_id")) with _ | parentId
  · rfl
  · dsimp only
    split <;> rfl

/-- What the end of a thread does to a Turn. -/
def closedTurn (threadId : String) (now : ℚ) (binding : NativeTurnBinding) : NativeTurnBinding :=
  if binding.threadId = threadId && !terminalTurn binding.turn then
    { binding with
      items := incompleteItems binding.items
      turn := { binding.turn with status := .cancelled, completedAt := some now } }
  else binding

theorem closedTurn_entry (now : ℚ) : closedTurn threadId now (r.entry i binding) =
    r.entry i (closedTurn threadId now binding) := by
  have hended : terminalTurn (r.entry i binding).turn = terminalTurn binding.turn := by
    rw [entry_eq]
    rfl
  rw [closedTurn, closedTurn, hended, entry_threadId]
  split
  · simp only [entry_eq]
    rw [← incompleteItems_ownedBy, apply_ite incompleteItems]
  · rfl

theorem closeThread_state (h : r.Separate state) (now : ℚ) :
    closeThread (r.state state) threadId now = r.state (closeThread state threadId now) := by
  have hturns : (state.turns.mapIdx r.entry).map (closedTurn threadId now) =
      (state.turns.map (closedTurn threadId now)).mapIdx r.entry := by
    refine List.ext_getElem? fun i ↦ ?_
    rw [List.getElem?_map, List.getElem?_mapIdx, List.getElem?_mapIdx, List.getElem?_map]
    rcases state.turns[i]? with _ | binding
    · rfl
    · exact congrArg some (closedTurn_entry now)
  have hactions : (state.requiredActions.map r.action).filter (fun action ↦
        !(state.turns.mapIdx r.entry).any fun binding ↦
          binding.threadId = threadId && action.isFor binding.turn.id) =
      (state.requiredActions.filter fun action ↦ !state.turns.any fun binding ↦
        binding.threadId = threadId && action.isFor binding.turn.id).map r.action := by
    rw [List.filter_map]
    refine congrArg _ (List.filter_congr fun action hmem ↦ congrArg _ (any_mapIdx ?_))
    intro j binding hget
    have hplaced := h.placed j binding hget
    rw [entry_threadId, hplaced.entry_id, isFor_action (h.actions action hmem) hplaced.fresh]
  change SessionRuntimeState.mk _ _ _ _ _ _ _ _ _ = SessionRuntimeState.mk _ _ _ _ _ _ _ _ _
  congr 1

/-- The end of a thread leaves every Turn its id. -/
theorem Separate.closeThread (h : r.Separate state) (now : ℚ) :
    r.Separate (closeThread state threadId now) := by
  refine ⟨fun i binding hget ↦ ?_, ?_, fun action hmem ↦ ?_⟩
  · obtain ⟨before, hbefore, rfl⟩ := Option.map_eq_some_iff.mp ((List.getElem?_map).symm.trans hget)
    have hplaced := h.placed i before hbefore
    split <;> exact hplaced
  · exact lt_of_lt_of_eq h.there (List.length_map _).symm
  · exact h.actions action (List.mem_filter.mp hmem).1

theorem Separate.startThread (h : r.Separate state) {id : String} {thread : JsonValue} {now : ℚ} :
    r.Separate (startThread state id thread now) := by
  unfold RatThings.Runtime.startThread
  dsimp only
  split
  · exact h
  · split
    · exact h
    · exact ⟨h.placed, h.there, h.actions⟩

/-- What is done once for every thread, if it may be done before the renaming or after it. -/
theorem foldl_state {f : SessionRuntimeState → String → SessionRuntimeState}
    (hf : ∀ s id, r.Separate s → f (r.state s) id = r.state (f s id) ∧ r.Separate (f s id))
    (h : r.Separate state) (receivers : List String) :
    receivers.foldl f (r.state state) = r.state (receivers.foldl f state) ∧
      r.Separate (receivers.foldl f state) := by
  induction receivers generalizing state with
  | nil => exact ⟨rfl, h⟩
  | cons id receivers ih =>
    obtain ⟨hsame, hnext⟩ := hf state id h
    rw [List.foldl_cons, List.foldl_cons, hsame]
    exact ih hnext

theorem announceReceivers_state (h : r.Separate state) :
    announceReceivers (r.state state) event = r.state (announceReceivers state event) ∧
      r.Separate (announceReceivers state event) := by
  have hcompleted : completedCoordination (r.state state) event =
      completedCoordination state event := rfl
  rw [announceReceivers, announceReceivers, hcompleted]
  rcases completedCoordination state event with _ | ⟨item, parentId, receivers⟩
  · exact ⟨rfl, h⟩
  · refine foldl_state (fun s id hs ↦ ?_) h receivers
    have hknows : (r.state s).knows id = s.knows id := rfl
    have hthread : announcedThread (r.state s) item parentId id =
        announcedThread s item parentId id := rfl
    rw [hknows, hthread]
    split
    · exact ⟨startThread_state, hs.startThread⟩
    · split
      · split
        · exact ⟨closeThread_state hs _, hs.closeThread _⟩
        · exact ⟨rfl, hs⟩
      · exact ⟨rfl, hs⟩

theorem planNativeCoordination_state {parse : String → Option JsonValue} :
    planNativeCoordination parse (r.state state) event =
      (r.state (planNativeCoordination parse state event).1,
        (planNativeCoordination parse state event).2) := by
  have hknows : (r.state state).knows = state.knows := rfl
  unfold planNativeCoordination
  rw [hknows]
  rcases event.item with _ | item
  · rfl
  rcases nonempty (stringOf event.params "threadId") with _ | threadId
  · rfl
  rcases nonempty (stringOf event.params "turnId") with _ | turnId
  · rfl
  dsimp only
  split
  · rfl
  generalize (isRaw event item "function_call" && fieldIs item "namespace" "collaboration") = call
  generalize ((stringOf item "name").filter fun name ↦ (coordinationTools.lookup name).isSome) =
    name
  generalize (fieldIs item "type" "subAgentActivity" &&
    ["started", "interacted", "interrupted"].contains (textOf item "kind")) = activity
  generalize stringOf item "id" = id
  generalize stringOf item "agentThreadId" = agent
  generalize isRaw event item "function_call_output" = output
  generalize stringOf item "call_id" = callId
  -- Every branch looks at the calls, the paths and the subagents only.
  rcases call with _ | _ <;> rcases name with _ | name <;> rcases callId with _ | callId <;>
    rcases activity with _ | _ <;> rcases id with _ | id <;> rcases agent with _ | agent <;>
    rcases output with _ | _ <;> try rfl
  all_goals
    dsimp only
    have hcalls : (r.state state).coordinationCalls = state.coordinationCalls := rfl
    rw [hcalls]
    rcases state.coordinationCalls.get? callId with _ | found
    · rfl
    · dsimp only
      split <;> rfl

/-- **A notification, before the renaming and after it.** -/
theorem reduceSessionRuntime_state {parse : String → Option JsonValue} (h : r.Separate state)
    (hnames : NamesItems (planNativeCoordination parse state event).2)
    (hnext : ∀ i binding, (reduceSessionRuntime parse state event).turns[i]? = some binding →
      r.Placed i binding.turn.id) :
    reduceSessionRuntime parse (r.state state) event =
      r.state (reduceSessionRuntime parse state event) := by
  rw [reduceSessionRuntime] at hnext ⊢
  rw [reduceSessionRuntime, planNativeCoordination_state]
  have hplanned := @planNativeCoordination_planned parse state event
  generalize planNativeCoordination parse state event = planned at hnames hnext hplanned ⊢
  obtain ⟨planned, event'⟩ := planned
  dsimp only at hnames hnext hplanned ⊢
  have hseparate : r.Separate planned := by
    rw [hplanned.book]
    exact ⟨h.placed, h.there, h.actions⟩
  obtain ⟨hannounced, hseparate⟩ := @announceReceivers_state r event' planned hseparate
  rw [hannounced]
  generalize announceReceivers planned event' = announced at hnext hseparate ⊢
  revert hnext
  unfold reduceEvent
  rcases startedThread event' with _ | ⟨id, thread⟩
  · dsimp only
    unfold reduceThread
    rcases nonempty (stringOf event'.params "threadId") with _ | threadId
    · exact fun _ ↦ rfl
    have hknows : (r.state announced).knows threadId = announced.knows threadId := rfl
    dsimp only
    rw [hknows, nativeTurnIdOf_state]
    by_cases hknown : (!announced.knows threadId) = true
    · simp only [if_pos hknown]
      exact fun _ ↦ trivial
    simp only [if_neg hknown]
    by_cases hclosed : (decide (event'.method = "thread/closed") ||
        decide (event'.method = "thread/archived")) = true
    · simp only [if_pos hclosed]
      exact fun _ ↦ closeThread_state hseparate _
    simp only [if_neg hclosed]
    rcases nativeTurnIdOf announced event' threadId with _ | nativeTurnId
    · exact fun _ ↦ rfl
    by_cases hconcerns : concernsTurn event' = true
    · simp only [if_pos hconcerns]
      exact fun hnext ↦ reduceTurn_state hseparate hnames hnext
    · simp only [if_neg hconcerns]
      exact fun _ ↦ trivial
  · exact fun _ ↦ startThread_state

/-! ## Runs -/

/-- The event that planning puts in the place of one carries an item with an id. -/
theorem namesItems_planned {parse : String → Option JsonValue} (h : NamesItems event) :
    NamesItems (planNativeCoordination parse state event).2 := by
  rcases (@planNativeCoordination_planned parse state event).origin with
    ⟨hsame, -⟩ | ⟨_, _, id, call, status, -, -, -, -, -, hevent⟩
  · rw [hsame]
    exact h
  · rw [hevent]
    intro threadId nativeTurnId json hjson
    have hnone : completedItems (coordinationEvent event id call status) threadId nativeTurnId =
        [] := by
      rw [completedItems, if_neg]
      rcases @coordinationEvent_method event id call status with hmethod | hmethod <;>
        rw [hmethod] <;> decide
    rw [hnone, List.mem_singleton] at hjson
    subst hjson
    intro item hitem
    obtain rfl := Option.some.inj hitem
    rfl

/-- What tells Turns apart. -/
def identity (binding : NativeTurnBinding) : String × String × String :=
  (binding.threadId, binding.nativeTurnId, binding.turn.id)

theorem identities_turn : state.turns.map identity <+:
    (reduceTurn state event threadId nativeTurnId).turns.map identity := by
  rcases @reduceTurn_change state event threadId nativeTurnId with hsame | ⟨after, hchange, hresult⟩
  · rw [hsame]
  rw [hresult]
  dsimp only [putTurn]
  have hid := hchange.id
  rw [turnOf] at hid
  rcases hfound : state.bindingOf threadId nativeTurnId with _ | ⟨index, found⟩
  · rw [List.map_append]
    exact List.prefix_append _ _
  · rw [hfound] at hid
    obtain ⟨hget, hthread, hnative⟩ := bindingOf_eq_some hfound
    have hsame : identity after.binding = identity found := by
      rw [identity, identity, hchange.ofThread, hchange.ofNative, hthread, hnative, hid]
      rfl
    have hkey : (state.turns.map identity)[index]? = some (identity found) := by
      rw [List.getElem?_map, hget]
      rfl
    obtain ⟨hlt, heq⟩ := List.getElem?_eq_some_iff.mp hkey
    dsimp only
    rw [List.map_set, hsame, ← heq, List.set_getElem_self]

/-- A notification adds Turns behind those there are, and leaves these their ids. -/
theorem identities_grow {parse : String → Option JsonValue} :
    state.turns.map identity <+: (reduceSessionRuntime parse state event).turns.map identity := by
  refine reduceSessionRuntime_preserves
    (P := fun s ↦ state.turns.map identity <+: s.turns.map identity)
    (fun s _ _ h ↦ h) (fun s id thread now h ↦ ?_) (fun s id now _ h ↦ ?_)
    (fun s event' threadId nativeTurnId _ _ h _ _ _ _ ↦ h.trans ?_) List.prefix_rfl
  · unfold RatThings.Runtime.startThread
    dsimp only
    split
    · exact h
    · split <;> exact h
  · have hsame : (RatThings.Runtime.closeThread s id now).turns.map identity =
        s.turns.map identity := by
      refine (List.map_map).trans (List.map_congr_left fun binding _ ↦ ?_)
      simp only [Function.comp_apply]
      split <;> rfl
    rw [hsame]
    exact h
  · exact identities_turn

/-- No action comes to name an id that no Turn has. -/
theorem actions_fresh {parse : String → Option JsonValue} {id : String}
    (h : ∀ action ∈ state.requiredActions, action.isFor id = false)
    (hfresh : ∀ binding ∈ (reduceSessionRuntime parse state event).turns, binding.turn.id ≠ id) :
    ∀ action ∈ (reduceSessionRuntime parse state event).requiredActions,
      action.isFor id = false := by
  refine reduceSessionRuntime_preserves
    (P := fun s ↦ (∀ binding ∈ s.turns, binding.turn.id ≠ id) →
      ∀ action ∈ s.requiredActions, action.isFor id = false)
    (fun s _ _ h ↦ h) (fun s id' thread now h ↦ ?_) (fun s id' now _ h hids ↦ ?_)
    (fun s event' threadId nativeTurnId _ _ h _ _ _ _ ↦ ?_) (fun _ ↦ h) hfresh
  · unfold RatThings.Runtime.startThread
    dsimp only
    split
    · exact h
    · split <;> exact h
  · intro action hmem
    refine h (fun binding hbinding ↦ ?_) action (List.mem_filter.mp hmem).1
    have hnext := hids _ (List.mem_map_of_mem hbinding)
    split at hnext <;> exact hnext
  · have hids : s.turns.map identity <+:
        (reduceTurn s event' threadId nativeTurnId).turns.map identity := identities_turn
    rcases @reduceTurn_change s event' threadId nativeTurnId with hsame | ⟨after, hchange, hresult⟩
    · rw [hsame]
      exact h
    · rw [hresult] at hids ⊢
      intro hfresh action hmem
      have hne := hfresh _ mem_putTurn
      by_contra hfor
      rw [Bool.not_eq_false] at hfor
      have hother : action.isFor after.binding.turn.id = false :=
        eq_false_of_ne_true fun hfor' ↦ hne (isFor_unique hfor' hfor)
      have hold := (hchange.mem_of_not_isFor hother).mp hmem
      rw [h (fun binding hbinding ↦ ?_) action hold] at hfor
      · cases hfor
      · have hkey := hids.subset (List.mem_map_of_mem hbinding)
        obtain ⟨binding', hbinding', hsame⟩ := List.mem_map.mp hkey
        have hid : binding'.turn.id = binding.turn.id := congrArg (·.2.2) hsame
        rw [← hid]
        exact hfresh binding' hbinding'

theorem identities_run {parse : String → Option JsonValue} (events : List SessionRuntimeEvent) :
    state.turns.map identity <+:
      (events.foldl (reduceSessionRuntime parse) state).turns.map identity := by
  induction events generalizing state with
  | nil => exact List.prefix_rfl
  | cons event events ih => exact identities_grow.trans ih

/-- What is placed in a later state is placed in an earlier one. -/
theorem placed_of_prefix {later : SessionRuntimeState}
    (hids : state.turns.map identity <+: later.turns.map identity)
    (h : ∀ i binding, later.turns[i]? = some binding → r.Placed i binding.turn.id) :
    ∀ i binding, state.turns[i]? = some binding → r.Placed i binding.turn.id := by
  intro i binding hget
  have hkey : (state.turns.map identity)[i]? = some (identity binding) := by
    rw [List.getElem?_map, hget]
    rfl
  have hlater := List.prefix_iff_getElem?.mp hids i (List.getElem?_eq_some_iff.mp hkey).1
  rw [(List.getElem?_eq_some_iff.mp hkey).2, List.getElem?_map] at hlater
  obtain ⟨binding', hget', hsame⟩ := Option.map_eq_some_iff.mp hlater
  have hid : binding'.turn.id = binding.turn.id := congrArg (·.2.2) hsame
  exact hid ▸ h i binding' hget'

/-- **A run, before the renaming and after it.** -/
theorem run_state {parse : String → Option JsonValue} {events : List SessionRuntimeEvent}
    (h : r.Separate state) (hnames : ∀ event ∈ events, NamesItems event)
    (hfinal : ∀ i binding, (events.foldl (reduceSessionRuntime parse) state).turns[i]? =
      some binding → r.Placed i binding.turn.id) :
    events.foldl (reduceSessionRuntime parse) (r.state state) =
      r.state (events.foldl (reduceSessionRuntime parse) state) := by
  induction events generalizing state with
  | nil => rfl
  | cons event events ih =>
    have hnext := placed_of_prefix (identities_run events) hfinal
    rw [List.foldl_cons, reduceSessionRuntime_state h
      (namesItems_planned (hnames event List.mem_cons_self)) hnext]
    refine ih ⟨hnext, ?_, ?_⟩ (fun event' hmem ↦ hnames event' (List.mem_cons_of_mem event hmem))
      hfinal
    · have hlength := (@identities_grow event state parse).length_le
      rw [List.length_map, List.length_map] at hlength
      exact Nat.lt_of_lt_of_le h.there hlength
    · refine actions_fresh h.actions fun binding hmem ↦ ?_
      obtain ⟨i, hget⟩ := List.mem_iff_getElem?.mp hmem
      exact (hnext i binding hget).fresh

end Rebinding

end RatThings.Runtime
