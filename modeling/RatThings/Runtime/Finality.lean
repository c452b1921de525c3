import Mathlib.Data.List.Infix
import Mathlib.Tactic.ByContra
import RatThings.Runtime.Items

/-!
# Items that are final

The items of a Turn are projected from the events of the harness, in calls that each get the
items of the one before. An item is final once it has a status other than in progress. A delta
leaves a final item alone, and a completed event writes an item that is final. An event that
starts an item does not look at the item that has its id: it puts a final item in progress again
(`reopened`), and a message between agents, which has no status, replaces it.

## What is kept

In a run without such events final items stay final (`finality_kept`), and stay as they are unless a
completed event for the same id comes. Whatever the events are, items keep their places, and it does
not matter in how many calls the events arrive, with one exception: at the end of a call the
fallback text stands in for a message that was not reported, and a later call may report it
(`StandsIn`).

## The invariant

Items are kept by their ids, in the order of their first events. `Items.Keyed` says that an item is
under its own id, which every event preserves; what an event does is then a statement about one id.
-/

namespace RatThings.Runtime

open Concurrent

/-! ## Items by their ids

The operations on the collection, each as what it does to the item of one id and to the order. -/

/-- Every item is kept under its own id. -/
def Items.Keyed (items : Items) : Prop := ∀ e ∈ items.entries, e.2.id = some e.1

namespace Items

variable {items : Items}

theorem Keyed.empty : Keyed (.empty : Items) := nofun

theorem Keyed.id_eq (h : items.Keyed) {id : String} {item : AgentSessionItem}
    (hitem : items.get? id = some item) : item.id = some id :=
  h (id, item) (OrderedMap.get?_eq_some.mp hitem)

theorem Keyed.put (h : items.Keyed) (item : AgentSessionItem) : (items.put item).Keyed := by
  unfold Items.put
  split
  · next id hid =>
    intro e he
    have hget : (items.set id item).get? e.1 = some e.2 := OrderedMap.get?_eq_some.mpr he
    by_cases hkey : e.1 = id
    · rw [hkey, OrderedMap.get?_set_self] at hget
      rw [← Option.some.inj hget, hid, hkey]
    · rw [OrderedMap.get?_set_of_ne _ hkey] at hget
      exact h.id_eq hget
  · exact h

theorem Keyed.foldl_put {written : List AgentSessionItem} (h : items.Keyed) :
    (written.foldl Items.put items).Keyed := by
  induction written generalizing items with
  | nil => exact h
  | cons item written ih => exact ih (h.put item)

theorem keyed_ofList (initial : List AgentSessionItem) : (ofList initial).Keyed :=
  Keyed.empty.foldl_put

theorem Keyed.mem_values (h : items.Keyed) {item : AgentSessionItem} :
    item ∈ items.values ↔ ∃ id, item.id = some id ∧ items.get? id = some item := by
  simp only [values, List.mem_map, Prod.exists, exists_eq_right]
  refine exists_congr fun id ↦ ?_
  rw [← OrderedMap.get?_eq_some]
  exact ⟨fun hget ↦ ⟨h.id_eq hget, hget⟩, And.right⟩

theorem Keyed.ids_eq (h : items.Keyed) :
    items.values.map (·.id) = (items.entries.map Prod.fst).map some := by
  rw [values, List.map_map, List.map_map]
  exact List.map_congr_left fun e he ↦ h e he

/-- The items of a list are its elements, in their order, if each has an id of its own. -/
theorem Keyed.ofList_values (h : items.Keyed) : ofList items.values = items := by
  obtain ⟨entries, hnodup⟩ := items
  suffices hfold : ∀ (acc : Items) (rest : List (String × AgentSessionItem)),
      (∀ e ∈ rest, e.2.id = some e.1) → ((acc.entries ++ rest).map Prod.fst).Nodup →
      ((rest.map Prod.snd).foldl Items.put acc).entries = acc.entries ++ rest from
    OrderedMap.ext (hfold .empty entries h (by simpa using hnodup))
  intro acc rest hids hdistinct
  induction rest generalizing acc with
  | nil => exact (List.append_nil _).symm
  | cons e rest ih =>
    obtain ⟨id, item⟩ := e
    have hid : item.id = some id := hids _ (List.mem_cons_self)
    -- The id is new, so the item is appended.
    have hnew : acc.get? id = none := by
      rw [OrderedMap.get?_eq_none]
      rw [List.map_append, List.nodup_append] at hdistinct
      exact fun hmem ↦ hdistinct.2.2 id hmem id (by simp) rfl
    have hput : (acc.put item).entries = acc.entries ++ [(id, item)] := by
      rw [Items.put, hid]
      exact OrderedMap.entries_set_of_get?_eq_none hnew item
    rw [List.map_cons, List.foldl_cons, ih _ (fun e he ↦ hids e (List.mem_cons_of_mem _ he))
      (by rw [hput]; simpa using hdistinct), hput]
    simp

theorem get?_put {item : AgentSessionItem} {id : String} :
    (items.put item).get? id = if item.id = some id then some item else items.get? id := by
  unfold put
  split
  · next id' hid =>
    by_cases hsame : id' = id
    · subst hsame
      simp [hid]
    · rw [OrderedMap.get?_set_of_ne _ (Ne.symm hsame), if_neg]
      rw [hid, Option.some.injEq]
      exact hsame
  · next hid => simp [hid]

/-- What is kept under an id was written last, or was there before. -/
theorem get?_foldl_put {written : List AgentSessionItem} {id : String} :
    (written.foldl put items).get? id = items.get? id ∨
      ∃ item ∈ written, item.id = some id ∧ (written.foldl put items).get? id = some item := by
  induction written generalizing items with
  | nil => exact .inl rfl
  | cons item written ih =>
    rw [List.foldl_cons]
    rcases @ih (items.put item) with hsame | ⟨item', hmem, hid, hget⟩
    · rw [hsame, get?_put]
      split
      · next hid => exact .inr ⟨item, List.mem_cons_self, hid, rfl⟩
      · exact .inl rfl
    · exact .inr ⟨item', List.mem_cons_of_mem _ hmem, hid, hget⟩

theorem keys_isPrefix_foldl_put {written : List AgentSessionItem} :
    items.entries.map Prod.fst <+: (written.foldl put items).entries.map Prod.fst := by
  induction written generalizing items with
  | nil => exact List.prefix_refl _
  | cons item written ih =>
    refine List.IsPrefix.trans ?_ (@ih (items.put item))
    unfold put
    split
    · exact OrderedMap.keys_isPrefix_set _ _ _
    · exact List.prefix_refl _

end Items

/-! ## What an event writes

By cases on the method of the event. -/

section

variable {turnId : String} {options : ItemOptions} {items : Items} {event : JsonValue}

theorem finalItem_of_done {status : Option JsonValue} {id : Option String}
    {content : ItemContent} : finalItem ⟨id, turnId, some (callStatus status true), content⟩ := by
  simp only [finalItem, callStatus, Option.any_some]
  split <;> [skip; split <;> [skip; split]] <;> simp_all

/-- A coordination call is written under its own id, and is final if it is done. -/
theorem coordinationItems_written {id : String} {item : JsonValue} {done : Bool}
    {written : AgentSessionItem}
    (h : written ∈ coordinationItems turnId options id item done) :
    ∃ content, written = ⟨some id, turnId, some (callStatus (item.get? "status") done),
      content⟩ := by
  simp only [coordinationItems, List.mem_append] at h
  rcases h with ((((h | h) | h) | h) | h) | h <;> split at h <;>
    simp only [List.mem_map, List.mem_singleton, List.not_mem_nil] at h
  · exact ⟨_, h⟩
  · exact ⟨_, h⟩
  all_goals
    obtain ⟨_, -, rfl⟩ := h
    exact ⟨_, rfl⟩

/-- A call of a function is written under its own id, and its result once it is done. -/
theorem functionItems_written {id tool : String} {item : JsonValue} {done : Bool}
    {written : AgentSessionItem} (h : written ∈ functionItems turnId id tool item done) :
    (written.id = some id ∧ ∃ content, written =
      ⟨some id, turnId, some (callStatus (item.get? "status") done), content⟩) ∨
    (done = true ∧ finalItem written ∧ written.id.isSome) := by
  unfold functionItems at h
  dsimp only at h
  split at h
  · next success output _ _ =>
    rcases List.mem_cons.mp h with rfl | h
    · exact .inl ⟨rfl, _, rfl⟩
    · rw [List.mem_singleton.mp h]
      refine .inr ⟨rfl, ?_, rfl⟩
      rcases success with _ | _ <;> rfl
  · rw [List.mem_singleton.mp h]
    exact .inl ⟨rfl, _, rfl⟩

/-- What a started item writes is written under its own id; what a completed one writes is final. -/
theorem publicItems_written {id : String} {item : JsonValue} {done : Bool}
    {written : AgentSessionItem} (h : written ∈ publicItems turnId options items id item done) :
    written.id.isSome ∧ (written.id = some id ∨ done = true) ∧
      (done = true → finalItem written) := by
  have hcall : ∀ (status : Option JsonValue) (content : ItemContent),
      done = true → finalItem ⟨some id, turnId, some (callStatus status done), content⟩ := by
    rintro status content rfl
    exact finalItem_of_done
  have hdone : ∀ content : ItemContent,
      done = true → finalItem ⟨some id, turnId, some (doneStatus done), content⟩ := by
    rintro content rfl
    rfl
  unfold publicItems at h
  dsimp only at h
  split at h
  · rw [List.mem_singleton.mp h]
    exact ⟨rfl, .inl rfl, hdone _⟩
  split at h
  · rw [List.mem_singleton.mp h]
    exact ⟨rfl, .inl rfl, fun _ ↦ rfl⟩
  split at h
  · obtain ⟨content, rfl⟩ := coordinationItems_written h
    exact ⟨rfl, .inl rfl, hcall _ _⟩
  split at h
  · rcases functionItems_written h with ⟨-, content, rfl⟩ | ⟨hd, hfinal, hid⟩
    · exact ⟨rfl, .inl rfl, hcall _ _⟩
    · exact ⟨hid, .inr hd, fun _ ↦ hfinal⟩
  split at h
  · rw [List.mem_singleton.mp h]
    exact ⟨rfl, .inl rfl, hdone _⟩
  split at h
  · rw [List.mem_singleton.mp h]
    exact ⟨rfl, .inl rfl, hdone _⟩
  split at h
  · rw [List.mem_singleton.mp h]
    exact ⟨rfl, .inl rfl, hcall _ _⟩
  split at h
  · rw [List.mem_singleton.mp h]
    exact ⟨rfl, .inl rfl, hcall _ _⟩
  · exact absurd h List.not_mem_nil

variable (turnId) in
/-- The id of the item that the event writes without looking at what it was, and without completing
it. -/
def reopenedId (event : JsonValue) : Option String :=
  if (itemDelta event).isSome then none
  else (itemOf event).bind fun item ↦
    if fieldIs event "method" "rawResponseItem/completed" &&
      fieldIs item "type" "agent_message" then
      stringOf item "id"
    else if ["item/started", "item/completed", "item.completed"].contains (eventName event) &&
        !isDone event then
      some ((stringOf item "id").getD (turnId ++ "_output"))
    else none

variable (turnId items) in
/-- The event puts an item in progress, or replaces it, that is final. -/
def Reopens (event : JsonValue) : Bool :=
  (reopenedId turnId event).any fun id ↦ (items.get? id).any finalItem

/-- A delta writes the item it names, unless that is final. -/
theorem deltaItem_written {params : JsonValue} {id : String} {previous : Option AgentSessionItem}
    {delta : ItemDelta} {written : AgentSessionItem}
    (hprevious : ∀ item, previous = some item → item.id = some id)
    (h : deltaItem turnId params id previous delta = some written) : written.id = some id := by
  have hsummarized : ∀ delta, deltaItem.summarized turnId params id previous delta = some written →
      written.id = some id := by
    intro delta h
    simp only [deltaItem.summarized, Option.bind_eq_bind, Option.bind_eq_some_iff] at h
    obtain ⟨_, -, h⟩ := h
    obtain rfl := Option.some.inj h
    rfl
  rcases delta with _ | delta | delta | delta
  · exact hsummarized _ h
  · exact hsummarized _ h
  · simp only [deltaItem, Option.bind_eq_bind, Option.bind_eq_some_iff] at h
    obtain ⟨item, hitem, h⟩ := h
    split at h
    · obtain rfl := Option.some.inj h
      exact hprevious item hitem
    · cases h
  · obtain rfl := Option.some.inj h
    rfl

/-- What an event writes over an item that is final is final, if the event does not reopen it; and
only a completed event writes there at all. -/
theorem writtenItems_spec (hkeyed : items.Keyed) {written : AgentSessionItem}
    (h : written ∈ writtenItems turnId options items event) :
    ∃ id, written.id = some id ∧ ((items.get? id).any finalItem = false ∨
      reopenedId turnId event = some id ∨ (isDone event = true ∧ finalItem written)) := by
  unfold writtenItems at h
  split at h
  · next itemId delta _ =>
    split at h
    · exact absurd h List.not_mem_nil
    · next hfinal =>
      have hitem := Option.mem_toList.mp h
      exact ⟨itemId, deltaItem_written (fun _ ↦ hkeyed.id_eq) hitem,
        .inl (eq_false_of_ne_true hfinal)⟩
  · next hdelta =>
    split at h
    · exact absurd h List.not_mem_nil
    · next item hitem =>
      -- An item that is written before it is complete is under the id that the event reopens.
      have hreopened : ∀ id, (if fieldIs event "method" "rawResponseItem/completed" &&
            fieldIs item "type" "agent_message" then stringOf item "id"
          else if ["item/started", "item/completed", "item.completed"].contains (eventName event) &&
              !isDone event then some ((stringOf item "id").getD (turnId ++ "_output"))
          else none) = some id → reopenedId turnId event = some id := by
        intro id hid
        rw [reopenedId, hdelta, hitem]
        exact hid
      split at h
      · next hraw =>
        have hmessage := Option.mem_toList.mp h
        simp only [agentMessageItem, Option.bind_eq_bind, Option.bind_eq_some_iff] at hmessage
        obtain ⟨id, hid, _, -, _, -, _, -, hmessage⟩ := hmessage
        obtain rfl := Option.some.inj hmessage
        refine ⟨id, rfl, .inr (.inl (hreopened id ?_))⟩
        rw [if_pos hraw]
        exact hid
      · next hraw =>
        split at h
        · next hname =>
          obtain ⟨hsome, hid, hfinal⟩ := publicItems_written h
          obtain ⟨id, hwritten⟩ := Option.isSome_iff_exists.mp hsome
          refine ⟨id, hwritten, .inr ?_⟩
          rcases hdone : isDone event with _ | _
          · refine .inl (hreopened id ?_)
            rw [if_neg hraw, if_pos (by simp only [hname, hdone]; rfl), ← hwritten]
            exact (hid.resolve_right (by rw [hdone]; exact Bool.false_ne_true)).symm
          · exact .inr ⟨rfl, hfinal hdone⟩
        · exact absurd h List.not_mem_nil

/-- **The step lemma.** An event that does not reopen an item leaves it final, and leaves it alone
unless it completes one. -/
theorem projectEvent_final (hkeyed : items.Keyed) (h : ¬ Reopens turnId items event) {id : String}
    {item : AgentSessionItem} (hitem : items.get? id = some item) (hfinal : finalItem item) :
    ∃ item', (projectEvent turnId options items event).get? id = some item' ∧ finalItem item' ∧
      (isDone event = false → item' = item) := by
  have hany : (items.get? id).any finalItem = true := by rw [hitem]; exact hfinal
  rcases @Items.get?_foldl_put items (writtenItems turnId options items event) id with
    hsame | ⟨written, hmem, hid, hget⟩
  · exact ⟨item, hsame.trans hitem, hfinal, fun _ ↦ rfl⟩
  · obtain ⟨id', hid', hcases⟩ := writtenItems_spec hkeyed hmem
    obtain rfl := Option.some.inj (hid'.symm.trans hid)
    rcases hcases with hnot | hreopened | ⟨hdone, hwritten⟩
    · rw [hany] at hnot
      cases hnot
    · exact absurd (by rwa [Reopens, hreopened]) h
    · exact ⟨written, hget, hwritten, fun hnot ↦ by rw [hdone] at hnot; cases hnot⟩

theorem Items.Keyed.projectEvent (h : items.Keyed) :
    (projectEvent turnId options items event).Keyed :=
  h.foldl_put

theorem Items.Keyed.foldl_projectEvent {events : List JsonValue} (h : items.Keyed) :
    (events.foldl (RatThings.Runtime.projectEvent turnId options) items).Keyed := by
  induction events generalizing items with
  | nil => exact h
  | cons event events ih => exact ih h.projectEvent

theorem keys_isPrefix_foldl_projectEvent {events : List JsonValue} :
    items.entries.map Prod.fst <+:
      (events.foldl (projectEvent turnId options) items).entries.map Prod.fst := by
  induction events generalizing items with
  | nil => exact List.prefix_refl _
  | cons event events ih => exact Items.keys_isPrefix_foldl_put.trans ih

end

/-! ## Runs -/

/-- Every item has an id, and no two have the same. -/
def Distinct (items : List AgentSessionItem) : Prop :=
  none ∉ items.map (·.id) ∧ (items.map (·.id)).Nodup

theorem Items.Keyed.distinct {items : Items} (h : items.Keyed) : Distinct items.values := by
  rw [Distinct, h.ids_eq]
  refine ⟨by simp, List.Nodup.map (fun _ _ ↦ Option.some.inj) items.nodup⟩

/-- A list of distinct items is the list of the items under their ids. -/
theorem Distinct.exists_items {initial : List AgentSessionItem} (h : Distinct initial) :
    ∃ items : Items, items.Keyed ∧ items.values = initial := by
  obtain ⟨hsome, hnodup⟩ := h
  have hid : ∀ item ∈ initial, item.id = some (item.id.getD "") := by
    intro item hmem
    rcases hitem : item.id with _ | id
    · exact absurd (hitem ▸ List.mem_map_of_mem hmem) hsome
    · rfl
  have hkeys : (initial.map fun item ↦ item.id.getD "").Nodup := by
    refine List.Nodup.of_map some ?_
    rw [List.map_map]
    rwa [show initial.map (some ∘ fun item ↦ item.id.getD "") = initial.map (·.id) from
      List.map_congr_left fun item hmem ↦ (hid item hmem).symm]
  refine ⟨⟨initial.map fun item ↦
    (item.id.getD "", item), by simpa [Function.comp_def] using hkeys⟩,
    ?_, by simp [Items.values, Function.comp_def]⟩
  intro e he
  obtain ⟨item, hmem, rfl⟩ := List.mem_map.mp he
  exact hid item hmem

section

variable (turnId : String) (options : ItemOptions) (fallbackText : Option String)

/-- Consecutive calls, each with the result of the one before it. -/
def projectCalls (calls : List (List JsonValue)) (initial : List AgentSessionItem) :
    List AgentSessionItem :=
  calls.foldl (fun items events ↦ projectSessionItems turnId options events fallbackText items)
    initial

/-- No event reopens an item that is final by then. -/
def Unreopened : Items → List JsonValue → Prop
  | _, [] => True
  | items, event :: events => ¬ Reopens turnId items event ∧
      Unreopened (projectEvent turnId options items event) events

def UnreopenedCalls : List AgentSessionItem → List (List JsonValue) → Prop
  | _, [] => True
  | initial, events :: calls => Unreopened turnId options (Items.ofList initial) events ∧
      UnreopenedCalls (projectSessionItems turnId options events fallbackText initial) calls

/-- The fallback text stands in for items that only a later call reports. -/
def StandsIn (initial : List AgentSessionItem) (calls : List (List JsonValue)) : Prop :=
  (nonempty fallbackText).isSome ∧ ∃ events later, calls = events :: later ∧ later ≠ [] ∧
    projectSessionItems turnId options events none initial = []

/-- What a call does to the items it was given by their ids. -/
def callItems (items : Items) (events : List JsonValue) : Items :=
  let projected := events.foldl (projectEvent turnId options) items
  match projected.values, nonempty fallbackText with
  | [], some text => projected.put ⟨turnId ++ "_output", turnId, some .completed,
      .message .assistant [.outputText text] (some .finalAnswer)⟩
  | _, _ => projected

end

section

variable {turnId : String} {options : ItemOptions} {fallbackText : Option String} {items : Items}
  {events : List JsonValue} {calls : List (List JsonValue)}

theorem Items.Keyed.callItems (h : items.Keyed) :
    (callItems turnId options fallbackText items events).Keyed := by
  unfold RatThings.Runtime.callItems
  dsimp only
  split
  · exact h.foldl_projectEvent.put _
  · exact h.foldl_projectEvent

theorem values_eq_nil : items.values = [] ↔ items = .empty := by
  refine ⟨fun h ↦ OrderedMap.ext (List.map_eq_nil_iff.mp h), ?_⟩
  rintro rfl
  rfl

theorem projectSessionItems_eq (initial : List AgentSessionItem) :
    projectSessionItems turnId options events fallbackText initial =
      (callItems turnId options fallbackText (Items.ofList initial) events).values := by
  unfold projectSessionItems callItems
  dsimp only
  generalize events.foldl (projectEvent turnId options) (Items.ofList initial) = projected
  rcases hvalues : projected.values with _ | ⟨item, rest⟩
  · rcases nonempty fallbackText with _ | text
    · exact hvalues.symm
    · rw [values_eq_nil.mp hvalues]
      rfl
  · exact hvalues.symm

/-- The calls work on the items by their ids. -/
theorem Items.Keyed.projectCalls (h : items.Keyed) :
    (projectCalls turnId options fallbackText calls items.values) =
      (calls.foldl (RatThings.Runtime.callItems turnId options fallbackText) items).values := by
  induction calls generalizing items with
  | nil => rfl
  | cons events calls ih =>
    rw [List.foldl_cons, ← ih h.callItems, RatThings.Runtime.projectCalls, List.foldl_cons,
      projectSessionItems_eq, h.ofList_values]
    rfl

theorem Items.Keyed.foldl_callItems (h : items.Keyed) :
    (calls.foldl (RatThings.Runtime.callItems turnId options fallbackText) items).Keyed := by
  induction calls generalizing items with
  | nil => exact h
  | cons events calls ih => exact ih h.callItems

theorem callItems_of_ne_empty
    (h : events.foldl (projectEvent turnId options) items ≠ .empty) :
    callItems turnId options fallbackText items events =
      events.foldl (projectEvent turnId options) items := by
  unfold callItems
  dsimp only
  split
  · next hnil _ => exact absurd (values_eq_nil.mp hnil) h
  · rfl

/-- No call moves an item. -/
theorem keys_isPrefix_callItems :
    items.entries.map Prod.fst <+:
      (callItems turnId options fallbackText items events).entries.map Prod.fst := by
  have hplaces := @keys_isPrefix_foldl_projectEvent turnId options items events
  by_cases hempty : events.foldl (projectEvent turnId options) items = .empty
  · rw [hempty, OrderedMap.entries_empty, List.map_nil, List.prefix_nil] at hplaces
    rw [hplaces]
    exact List.nil_prefix
  · rw [callItems_of_ne_empty hempty]
    exact hplaces

theorem keys_isPrefix_foldl_callItems :
    items.entries.map Prod.fst <+:
      (calls.foldl (callItems turnId options fallbackText) items).entries.map Prod.fst := by
  induction calls generalizing items with
  | nil => exact List.prefix_refl _
  | cons events calls ih => exact keys_isPrefix_callItems.trans ih

theorem get?_empty {id : String} : (OrderedMap.empty : Items).get? id = none := rfl

/-- A list of events that reopens nothing leaves a final item final, and leaves it alone if it
completes nothing. -/
theorem foldl_projectEvent_final (hkeyed : items.Keyed) (h : Unreopened turnId options items events)
    {id : String} {item : AgentSessionItem} (hitem : items.get? id = some item)
    (hfinal : finalItem item) :
    ∃ item', (events.foldl (projectEvent turnId options) items).get? id = some item' ∧
      finalItem item' ∧ ((∀ event ∈ events, isDone event = false) → item' = item) := by
  induction events generalizing items item with
  | nil => exact ⟨item, hitem, hfinal, fun _ ↦ rfl⟩
  | cons event events ih =>
    obtain ⟨item₁, hitem₁, hfinal₁, hsame₁⟩ :=
      @projectEvent_final turnId options items event hkeyed h.1 id item hitem hfinal
    obtain ⟨item', hitem', hfinal', hsame'⟩ := ih hkeyed.projectEvent h.2 hitem₁ hfinal₁
    refine ⟨item', hitem', hfinal', fun hdone ↦ ?_⟩
    rw [hsame' fun e he ↦ hdone e (List.mem_cons_of_mem _ he),
      hsame₁ (hdone event List.mem_cons_self)]

theorem callItems_final (hkeyed : items.Keyed) (h : Unreopened turnId options items events)
    {id : String} {item : AgentSessionItem} (hitem : items.get? id = some item)
    (hfinal : finalItem item) :
    ∃ item', (callItems turnId options fallbackText items events).get? id = some item' ∧
      finalItem item' ∧ ((∀ event ∈ events, isDone event = false) → item' = item) := by
  obtain ⟨item', hitem', hrest⟩ := foldl_projectEvent_final hkeyed h hitem hfinal
  have hne : events.foldl (projectEvent turnId options) items ≠ .empty := by
    intro hempty
    rw [hempty, get?_empty] at hitem'
    cases hitem'
  exact ⟨item', (callItems_of_ne_empty hne).symm ▸ hitem', hrest⟩

theorem Items.Keyed.unreopenedCalls_cons (hkeyed : items.Keyed) :
    UnreopenedCalls turnId options fallbackText items.values (events :: calls) ↔
      Unreopened turnId options items events ∧ UnreopenedCalls turnId options fallbackText
        (RatThings.Runtime.callItems turnId options fallbackText items events).values calls := by
  rw [UnreopenedCalls, hkeyed.ofList_values, projectSessionItems_eq, hkeyed.ofList_values]

/-- **The run lemma.** -/
theorem foldl_callItems_final (hkeyed : items.Keyed)
    (h : UnreopenedCalls turnId options fallbackText items.values calls) {id : String}
    {item : AgentSessionItem} (hitem : items.get? id = some item) (hfinal : finalItem item) :
    ∃ item', (calls.foldl (callItems turnId options fallbackText) items).get? id = some item' ∧
      finalItem item' := by
  induction calls generalizing items item with
  | nil => exact ⟨item, hitem, hfinal⟩
  | cons events calls ih =>
    obtain ⟨hevents, hcalls⟩ := hkeyed.unreopenedCalls_cons.mp h
    obtain ⟨item₁, hitem₁, hfinal₁, -⟩ := callItems_final hkeyed hevents hitem hfinal
    exact ih hkeyed.callItems hcalls hitem₁ hfinal₁

theorem UnreopenedCalls.drop {before after : List (List JsonValue)} (hkeyed : items.Keyed)
    (h : UnreopenedCalls turnId options fallbackText items.values (before ++ after)) :
    UnreopenedCalls turnId options fallbackText
      (before.foldl (callItems turnId options fallbackText) items).values after := by
  induction before generalizing items with
  | nil => exact h
  | cons events before ih => exact ih hkeyed.callItems (hkeyed.unreopenedCalls_cons.mp h).2

end

/-! ## The split of the events

Two calls with the events of one give what the one gives, unless the fallback text stood in
between. -/

theorem Items.keyed_normalize (initial : List AgentSessionItem) :
    ofList (ofList initial).values = ofList initial := (keyed_ofList initial).ofList_values

section

variable {turnId : String} {options : ItemOptions} {fallbackText : Option String} {items : Items}
  {events : List JsonValue} {calls : List (List JsonValue)}

/-- Two calls do what one does, unless the first puts the fallback text in the place of items. -/
theorem callItems_callItems {later : List JsonValue}
    (h : nonempty fallbackText = none ∨
      events.foldl (projectEvent turnId options) items ≠ .empty) :
    callItems turnId options fallbackText
      (callItems turnId options fallbackText items events) later =
      callItems turnId options fallbackText items (events ++ later) := by
  have hfirst : callItems turnId options fallbackText items events =
      events.foldl (projectEvent turnId options) items := by
    rcases h with hnone | hne
    · unfold callItems
      rw [hnone]
      dsimp only
      split
      · next hsome => cases hsome
      · rfl
    · exact callItems_of_ne_empty hne
  rw [hfirst, callItems, callItems, List.foldl_append]

theorem foldl_projectEvent_ne_empty (h : items ≠ .empty) :
    events.foldl (projectEvent turnId options) items ≠ .empty := by
  intro hempty
  have hplaces := @keys_isPrefix_foldl_projectEvent turnId options items events
  rw [hempty, OrderedMap.entries_empty, List.map_nil, List.prefix_nil,
    List.map_eq_nil_iff] at hplaces
  exact h (OrderedMap.ext hplaces)

theorem foldl_callItems_eq {first : List JsonValue}
    (h : nonempty fallbackText = none ∨ calls = [] ∨
      first.foldl (projectEvent turnId options) items ≠ .empty) :
    (first :: calls).foldl (callItems turnId options fallbackText) items =
      callItems turnId options fallbackText items (first ++ calls.flatten) := by
  induction calls generalizing first with
  | nil => simp
  | cons events calls ih =>
    have hfirst : nonempty fallbackText = none ∨
        first.foldl (projectEvent turnId options) items ≠ .empty :=
      h.imp_right fun h ↦ h.resolve_left (List.cons_ne_nil _ _)
    rw [List.foldl_cons, List.foldl_cons, callItems_callItems hfirst, ← List.foldl_cons, ih,
      List.flatten_cons, List.append_assoc]
    refine hfirst.imp_right fun hne ↦ .inr ?_
    rw [List.foldl_append]
    exact foldl_projectEvent_ne_empty hne

end

/-! ## The history of a Turn -/

section

variable (turnId : String) (options : ItemOptions) (fallbackText : Option String)

/-- What holds of the items over consecutive calls. Before the first call the list must be one of
distinct items, as the result of a call always is. -/
structure FinalityKept (initial : List AgentSessionItem) (calls : List (List JsonValue)) :
    Prop where
  /-- What is final stays final. -/
  final : ∀ before after, calls = before ++ after → before ≠ [] ∨ Distinct initial →
    ∀ item ∈ projectCalls turnId options fallbackText before initial, finalItem item →
      ∃ item' ∈ projectCalls turnId options fallbackText calls initial,
        item'.id = item.id ∧ finalItem item'
  /-- Events that complete nothing do not change what is final. -/
  unchanged : ∀ before events after, calls = before ++ events :: after →
    before ≠ [] ∨ Distinct initial → (∀ event ∈ events, isDone event = false) →
    ∀ item ∈ projectCalls turnId options fallbackText before initial, finalItem item →
      item ∈ projectCalls turnId options fallbackText (before ++ [events]) initial
  places : ∀ before after, calls = before ++ after → before ≠ [] ∨ Distinct initial →
    (projectCalls turnId options fallbackText before initial).map (·.id) <+:
      (projectCalls turnId options fallbackText calls initial).map (·.id)
  once : calls ≠ [] → Distinct (projectCalls turnId options fallbackText calls initial)
  /-- One call with all the events has the same result. -/
  split : calls ≠ [] → projectCalls turnId options fallbackText calls initial =
    projectSessionItems turnId options calls.flatten fallbackText initial

variable {turnId options fallbackText}

/-- The items that a list of calls works on. -/
theorem projectCalls_eq {initial : List AgentSessionItem} {calls : List (List JsonValue)}
    (h : calls ≠ [] ∨ Distinct initial) :
    projectCalls turnId options fallbackText calls initial =
      (calls.foldl (callItems turnId options fallbackText) (Items.ofList initial)).values := by
  rw [← (Items.keyed_ofList initial).projectCalls]
  rcases h with hcalls | hdistinct
  · obtain ⟨events, calls, rfl⟩ := List.exists_cons_of_ne_nil hcalls
    rw [projectCalls, projectCalls, List.foldl_cons, List.foldl_cons, projectSessionItems_eq,
      projectSessionItems_eq, Items.keyed_normalize]
  · obtain ⟨items, hkeyed, rfl⟩ := hdistinct.exists_items
    rw [hkeyed.ofList_values]

theorem unreopenedCalls_iff {initial : List AgentSessionItem} {calls : List (List JsonValue)} :
    UnreopenedCalls turnId options fallbackText initial calls ↔
      UnreopenedCalls turnId options fallbackText (Items.ofList initial).values calls := by
  rcases calls with _ | ⟨events, calls⟩
  · exact Iff.rfl
  · rw [UnreopenedCalls, UnreopenedCalls, Items.keyed_normalize, projectSessionItems_eq,
      projectSessionItems_eq, Items.keyed_normalize]

/-- **Final items stay final** in calls in which no event reopens one and the fallback text does not
stand in for items to come. -/
theorem finality_kept {initial : List AgentSessionItem} {calls : List (List JsonValue)}
    (h : UnreopenedCalls turnId options fallbackText initial calls)
    (hfallback : ¬ StandsIn turnId options fallbackText initial calls) :
    FinalityKept turnId options fallbackText initial calls := by
  have hkeyed : (Items.ofList initial).Keyed := Items.keyed_ofList initial
  rw [unreopenedCalls_iff] at h
  have hafter : ∀ before after : List (List JsonValue), before ≠ [] ∨ Distinct initial →
      before ++ after ≠ [] ∨ Distinct initial := fun _ _ hbefore ↦
    hbefore.imp_left (List.append_ne_nil_of_left_ne_nil · _)
  refine ⟨?_, ?_, ?_, ?_, ?_⟩
  · -- A final item stays under its id, and stays final, through the calls that follow.
    rintro before after rfl hbefore item hmem hfinal
    rw [projectCalls_eq hbefore, hkeyed.foldl_callItems.mem_values] at hmem
    obtain ⟨id, hid, hitem⟩ := hmem
    obtain ⟨item', hitem', hfinal'⟩ :=
      foldl_callItems_final hkeyed.foldl_callItems (h.drop hkeyed) hitem hfinal
    rw [← List.foldl_append] at hitem'
    have hid' : item'.id = some id := hkeyed.foldl_callItems.id_eq hitem'
    refine ⟨item', ?_, hid'.trans hid.symm, hfinal'⟩
    rw [projectCalls_eq (hafter _ _ hbefore)]
    exact hkeyed.foldl_callItems.mem_values.mpr ⟨id, hid', hitem'⟩
  · -- Events that complete nothing leave a final item as it is.
    rintro before events after rfl hbefore hdone item hmem hfinal
    rw [projectCalls_eq hbefore, hkeyed.foldl_callItems.mem_values] at hmem
    obtain ⟨id, hid, hitem⟩ := hmem
    have hevents := (hkeyed.foldl_callItems.unreopenedCalls_cons.mp (h.drop hkeyed)).1
    obtain ⟨item', hitem', -, hsame⟩ :=
      callItems_final hkeyed.foldl_callItems hevents hitem hfinal
    obtain rfl := hsame hdone
    rw [projectCalls_eq (hafter _ _ hbefore), hkeyed.foldl_callItems.mem_values, List.foldl_append]
    exact ⟨id, hid, hitem'⟩
  · -- The ids of the items only grow at the end.
    rintro before after rfl hbefore
    rw [projectCalls_eq hbefore, projectCalls_eq (hafter _ _ hbefore),
      hkeyed.foldl_callItems.ids_eq, hkeyed.foldl_callItems.ids_eq, List.foldl_append]
    exact List.IsPrefix.map some keys_isPrefix_foldl_callItems
  · intro hcalls
    rw [projectCalls_eq (.inl hcalls)]
    exact hkeyed.foldl_callItems.distinct
  · intro hcalls
    obtain ⟨first, calls, rfl⟩ := List.exists_cons_of_ne_nil hcalls
    rw [projectCalls_eq (.inl hcalls), projectSessionItems_eq, List.flatten_cons,
      foldl_callItems_eq]
    by_contra hnot
    rw [not_or, not_or, not_not] at hnot
    obtain ⟨hsome, hlater, hempty⟩ := hnot
    refine hfallback ⟨Option.isSome_iff_ne_none.mpr hsome, first, calls, rfl, hlater, ?_⟩
    rw [projectSessionItems_eq, values_eq_nil]
    unfold callItems
    rw [hempty]
    rfl

end

/-! ## An item that is started again

A completed message is started again, and a delta is then appended to it. -/

/-- A notification about an item. -/
def itemEvent (method : String) (item : JsonValue) : JsonValue :=
  .object [("method", .string method), ("params", .object [("item", item)])]

def sampleMessage : JsonValue :=
  .object [("id", .string "msg_1"), ("type", .string "agentMessage"), ("text", .string "Done.")]

def sampleDelta : JsonValue :=
  .object [("method", .string "item/agentMessage/delta"),
    ("params", .object [("itemId", .string "msg_1"), ("delta", .string "Done.")])]

/-- A message that is started, extended and completed, and extended once more. -/
def sampleCalls : List (List JsonValue) :=
  [[itemEvent "item/started" sampleMessage, sampleDelta],
    [itemEvent "item/completed" sampleMessage],
    [sampleDelta]]

theorem sampleCalls_finality : FinalityKept "turn_1" {} none [] sampleCalls :=
  finality_kept
    ⟨⟨by decide, by decide, trivial⟩, ⟨by decide, trivial⟩,
      ⟨by decide, trivial⟩, trivial⟩
    fun h ↦ absurd h.1 Bool.false_ne_true

/-- A replayed start puts a completed message in progress. -/
theorem reopened : ¬ FinalityKept "turn_1" {} none []
    [[itemEvent "item/completed" sampleMessage], [itemEvent "item/started" sampleMessage]] := by
  intro h
  obtain ⟨item, hmem, -, hfinal⟩ := h.final [_] [_] rfl (.inl (List.cons_ne_nil _ _))
    ⟨some "msg_1", "turn_1", some .completed, .message .assistant [.outputText "Done."] none⟩
    (by decide) rfl
  have hitem : item = ⟨some "msg_1", "turn_1", some .inProgress,
      .message .assistant [.outputText "Done."] none⟩ := by
    refine List.mem_singleton.mp (?_ : item ∈ [_])
    have hcalls : projectCalls "turn_1" {} none [[itemEvent "item/completed" sampleMessage],
        [itemEvent "item/started" sampleMessage]] [] = [⟨some "msg_1", "turn_1", some .inProgress,
          .message .assistant [.outputText "Done."] none⟩] := by decide
    rwa [hcalls] at hmem
  rw [hitem] at hfinal
  cases hfinal

end RatThings.Runtime
