import RatThings.Runtime.Items

/-!
# Items under another Turn id

An item names its Turn. Apart from that, what a Turn's events make of its items does not depend on
the id of the Turn, as long as every item that an event carries has an id of its own: the one that
stands in for it is put together from the Turn id.
-/

namespace RatThings.Runtime

open Concurrent

/-- The item as one of this Turn. -/
def AgentSessionItem.ownedBy (turnId : String) (item : AgentSessionItem) : AgentSessionItem :=
  { item with turnId }

/-- The event's item has an id. -/
def NamesItem (event : JsonValue) : Prop :=
  ∀ item, itemOf event = some item → (stringOf item "id").isSome

namespace Items

def ownedBy (turnId : String) (items : Items) : Items :=
  items.mapValues fun _ item ↦ item.ownedBy turnId

variable {turnId : String} {items : Items}

theorem get?_ownedBy (id : String) :
    (items.ownedBy turnId).get? id = (items.get? id).map (·.ownedBy turnId) :=
  OrderedMap.get?_mapValues items _ id

theorem values_ownedBy :
    (items.ownedBy turnId).values = items.values.map (·.ownedBy turnId) := by
  simp [values, ownedBy, List.map_map, Function.comp_def]

/-- Assigning an item and giving all items to the Turn can change places. -/
theorem put_ownedBy (item : AgentSessionItem) :
    (items.ownedBy turnId).put (item.ownedBy turnId) = (items.put item).ownedBy turnId := by
  have hid : (item.ownedBy turnId).id = item.id := rfl
  rw [put, put, hid]
  rcases item.id with _ | id
  · rfl
  · refine OrderedMap.ext ?_
    dsimp only
    rcases hfound : items.get? id with _ | found
    · have hfound' : (items.ownedBy turnId).get? id = none := by rw [get?_ownedBy, hfound]; rfl
      rw [OrderedMap.entries_set_of_get?_eq_none hfound', ownedBy, OrderedMap.entries_mapValues,
        ownedBy, OrderedMap.entries_mapValues, OrderedMap.entries_set_of_get?_eq_none hfound,
        List.map_append]
      rfl
    · have hfound' : (items.ownedBy turnId).get? id = some (found.ownedBy turnId) := by
        rw [get?_ownedBy, hfound]
        rfl
      rw [OrderedMap.set_eq_mapValues hfound', ownedBy, ownedBy, OrderedMap.set_eq_mapValues hfound]
      simp only [OrderedMap.entries_mapValues, List.map_map]
      refine List.map_congr_left fun entry _ ↦ ?_
      simp only [Function.comp_apply]
      split <;> rfl

theorem foldl_put_ownedBy (written : List AgentSessionItem) :
    (written.map (·.ownedBy turnId)).foldl put (items.ownedBy turnId) =
      (written.foldl put items).ownedBy turnId := by
  induction written generalizing items with
  | nil => rfl
  | cons item written ih => rw [List.map_cons, List.foldl_cons, put_ownedBy, ih, List.foldl_cons]

theorem ofList_ownedBy (initial : List AgentSessionItem) :
    ofList (initial.map (·.ownedBy turnId)) = (ofList initial).ownedBy turnId :=
  @foldl_put_ownedBy turnId .empty initial

end Items

/-! ## What an event writes -/

section

variable {turnId previous : String} {options : ItemOptions} {items : Items}

theorem deltaItem_ownedBy (params : JsonValue) (itemId : String) (item : Option AgentSessionItem)
    (delta : ItemDelta) :
    deltaItem turnId params itemId (item.map (·.ownedBy turnId)) delta =
      (deltaItem previous params itemId item delta).map (·.ownedBy turnId) := by
  have hcontent : (item.map (·.ownedBy turnId)).map (·.content) = item.map (·.content) := by
    rcases item with _ | item <;> rfl
  have hsummarized (delta : String) :
      deltaItem.summarized turnId params itemId (item.map (·.ownedBy turnId)) delta =
        (deltaItem.summarized previous params itemId item delta).map (·.ownedBy turnId) := by
    rw [deltaItem.summarized, deltaItem.summarized, hcontent]
    rcases summaryIndex params with _ | index <;> rfl
  rcases delta with _ | delta | delta | delta
  · exact hsummarized ""
  · exact hsummarized delta
  · rcases item with _ | ⟨id, owner, status, content⟩
    · rfl
    · cases content <;> rfl
  · rw [deltaItem, deltaItem, hcontent]
    rfl

theorem coordinationItems_ownedBy (id : String) (item : JsonValue) (done : Bool) :
    coordinationItems turnId options id item done =
      (coordinationItems previous options id item done).map (·.ownedBy turnId) := by
  simp only [coordinationItems, List.map_append, apply_ite (List.map _), List.map_nil,
    List.map_cons, List.map_map]
  rfl

theorem functionItems_ownedBy (id tool : String) (item : JsonValue) (done : Bool) :
    functionItems turnId id tool item done =
      (functionItems previous id tool item done).map (·.ownedBy turnId) := by
  unfold functionItems
  rcases done with _ | _
  · rfl
  · rcases (item.get? "success").bind Json.bool? with _ | success
    · rfl
    · rcases nativeFunctionOutput (item.get? "contentItems") with _ | output <;> rfl

theorem publicItems_ownedBy (id : String) (item : JsonValue) (done : Bool) :
    publicItems turnId options (items.ownedBy turnId) id item done =
      (publicItems previous options items id item done).map (·.ownedBy turnId) := by
  have hcontent : ((items.ownedBy turnId).get? id).map (·.content) =
      (items.get? id).map (·.content) := by
    rw [Items.get?_ownedBy, Option.map_map]
    rfl
  unfold publicItems
  dsimp only
  rw [hcontent]
  generalize ["agentMessage", "agent_message"].contains (textOf item "type") = message
  generalize stringOf item "text" = text
  generalize (fieldIs item "type" "userMessage" && options.includeUser) = user
  generalize (item.get? "content").bind Json.array? = content
  generalize fieldIs item "type" "dynamicToolCall" = dynamic
  generalize fieldIs item "type" "commandExecution" = execution
  generalize stringOf item "command" = command
  generalize fieldIs item "type" "mcpToolCall" = call
  generalize stringOf item "tool" = tool
  generalize stringOf item "server" = server
  -- No branch is chosen by the Turn.
  rcases message with _ | _ <;> [skip; rcases text with _ | text <;> [skip; rfl]]
  all_goals rcases user with _ | _ <;> [skip; rcases content with _ | content <;> [skip; rfl]]
  all_goals dsimp only
  all_goals split <;> [exact coordinationItems_ownedBy id item done; skip]
  all_goals rcases tool with _ | tool
  all_goals rcases dynamic with _ | _ <;> try exact functionItems_ownedBy id tool item done
  all_goals dsimp only
  all_goals split <;> [rfl; split <;> [rfl; skip]]
  all_goals rcases execution with _ | _ <;> [skip; rcases command with _ | command <;> [skip; rfl]]
  all_goals rcases call with _ | _ <;> try rfl
  all_goals rcases server with _ | server <;> rfl

theorem writtenItems_ownedBy {event : JsonValue} (h : NamesItem event) :
    writtenItems turnId options (items.ownedBy turnId) event =
      (writtenItems previous options items event).map (·.ownedBy turnId) := by
  rw [writtenItems, writtenItems]
  rcases itemDelta event with _ | ⟨itemId, delta⟩
  · rcases hitem : itemOf event with _ | item
    · rfl
    · obtain ⟨id, hid⟩ := Option.isSome_iff_exists.mp (h item hitem)
      dsimp only
      rw [hid, Option.getD_some, Option.getD_some]
      split
      · rw [agentMessageItem, agentMessageItem, hid]
        rcases stringOf item "author" with _ | author
        · rfl
        · rcases stringOf item "recipient" with _ | recipient
          · rfl
          · rcases (item.get? "content").bind Json.array? with _ | content <;> rfl
      · split
        · exact publicItems_ownedBy id item (isDone event)
        · rfl
  · dsimp only
    have hfinal : ((items.ownedBy turnId).get? itemId).any finalItem =
        (items.get? itemId).any finalItem := by
      rw [Items.get?_ownedBy]
      rcases items.get? itemId with _ | item <;> rfl
    rw [hfinal, Items.get?_ownedBy, @deltaItem_ownedBy turnId previous]
    split
    · rfl
    · rcases deltaItem previous (paramsOf event) itemId
        (items.get? itemId) delta with _ | item <;> rfl

theorem projectEvent_ownedBy {event : JsonValue} (h : NamesItem event) :
    projectEvent turnId options (items.ownedBy turnId) event =
      (projectEvent previous options items event).ownedBy turnId := by
  rw [projectEvent, projectEvent, writtenItems_ownedBy h, Items.foldl_put_ownedBy]

theorem foldl_projectEvent_ownedBy {events : List JsonValue}
    (h : ∀ event ∈ events, NamesItem event) :
    events.foldl (projectEvent turnId options) (items.ownedBy turnId) =
      (events.foldl (projectEvent previous options) items).ownedBy turnId := by
  induction events generalizing items with
  | nil => rfl
  | cons event events ih =>
    rw [List.foldl_cons, List.foldl_cons, projectEvent_ownedBy (h event List.mem_cons_self)]
    exact ih fun event' hmem ↦ h event' (List.mem_cons_of_mem event hmem)

/-- Without a text that stands in, the items are those that the events leave. -/
theorem projectSessionItems_none (events : List JsonValue) (initial : List AgentSessionItem) :
    projectSessionItems turnId options events none initial =
      (events.foldl (projectEvent turnId options) (Items.ofList initial)).values := by
  rw [projectSessionItems]
  generalize (events.foldl (projectEvent turnId options) (Items.ofList initial)).values = values
  rcases values with _ | ⟨item, values⟩ <;> rfl

/-- **The items of a Turn do not depend on its id**, apart from naming it. -/
theorem projectSessionItems_ownedBy {events : List JsonValue}
    (h : ∀ event ∈ events, NamesItem event) (initial : List AgentSessionItem) :
    projectSessionItems turnId options events none (initial.map (·.ownedBy turnId)) =
      (projectSessionItems previous options events none initial).map (·.ownedBy turnId) := by
  rw [projectSessionItems_none, projectSessionItems_none, Items.ofList_ownedBy,
    foldl_projectEvent_ownedBy h, Items.values_ownedBy]

end

end RatThings.Runtime
