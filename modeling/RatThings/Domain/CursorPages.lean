import RatThings.Environments.FilePages
import RatThings.Stores.ItemPages
import Mathlib.Data.Rat.Floor

/-!
# Lists with id cursors

Most lists of the API are cut out of a whole collection that is at hand; the cursor is an id, and
the page begins behind the first resource that has it. An id that is missing or empty is no cursor,
so that every resource needs one of its own.

The lists of Sessions and files go through the pages of the store instead, a hundred resources at a
time, keep what the request asks for, and stop as soon as they have one item more than they show.
The cursor that a reader sends may then be any resource of the collection, wherever the pages of the
store end; and pages that keep nothing must not end the list. What they need of the store is that it
cuts the collection into pages (`AgentsStore.Lists`), which is shown of both adapters: services run
over the local store or DynamoDB, whatever has been done to it before.
-/

namespace RatThings

open Concurrent

/-! ## Lists at hand -/

structure CursorQuery where
  after : Option String
  limit : Option ℚ
  /-- `order === 'asc'` -/
  ascending : Bool
deriving DecidableEq, Repr

/-- `Number.isInteger(limit) && limit >= 1` -/
def IsPositiveInteger (limit : ℚ) : Prop := limit.den = 1 ∧ 1 ≤ limit

instance (limit : ℚ) : Decidable (IsPositiveInteger limit) :=
  inferInstanceAs (Decidable (limit.den = 1 ∧ 1 ≤ limit))

/-- `Math.min(limit ?? 20, 100)` of a valid limit. -/
def pageLimit (limit : Option ℚ) : Except AgentsApiError ℕ :=
  if limit.any (¬ IsPositiveInteger ·) then
    .error (.invalid "limit must be a positive integer" "limit")
  else .ok (min (limit.getD 20) 100).num.toNat

section

variable {α : Type} (idOf : α → Option String)

/-- `cursorPage(resources, query)`: its `data` and `has_more`. -/
def cursorPage (resources : List α) (query : CursorQuery) :
    Except AgentsApiError (List α × Bool) := do
  let limit ← pageLimit query.limit
  let sorted := if query.ascending then resources else resources.reverse
  match query.after.filter (· ≠ "") with
  | none => pure (slicePage 0 limit sorted)
  | some after =>
    match sorted.findIdx? (idOf · = some after) with
    | none => throw (.invalid "Invalid pagination cursor" "after")
    | some index => pure (slicePage (index + 1) limit sorted)

/-- A reader sends the id of the last item as the next cursor. -/
def idPage (page : List α × Bool) : Page α String :=
  ⟨page.1, page.2, page.1.getLast?.bind idOf⟩

end

/-! ## Lists from the store -/

structure ResourcePage (R : Type) where
  data : List R
  hasMore : Bool
  firstId : Option String
  lastId : Option String
deriving DecidableEq, Repr

/-- What is selected, without what is too much. -/
def ResourcePage.cut {R : Type} (idOf : R → String) (limit : ℕ) (selected : List R) :
    ResourcePage R :=
  let data := selected.take limit
  ⟨data, decide (limit < selected.length), data.head?.map idOf, data.getLast?.map idOf⟩

def ResourcePage.toPage {R : Type} (page : ResourcePage R) : Page R String :=
  ⟨page.data, page.hasMore, page.lastId⟩

section

variable {V R : Type}

/-- Go through the pages of a collection, up to one resource more than are shown. -/
def listResources (store : AgentsStore V) (fuel : ℕ) (ownerId collection : String)
    (query : CursorQuery) (keep : AgentResource V → Bool) (limit : ℕ) :
    Option (Except AgentsStoreError (List (AgentResource V))) :=
  gather (fun after ↦ (store.list ownerId collection ⟨some 100, query.ascending, after⟩).map
    ListPage.toPage) keep limit fuel query.after []

end

namespace SessionService

variable {S O : Type}

/-- What a list reads of a Session. -/
structure StoredSession (S : Type) where
  id : String
  agentId : String
  rest : S
deriving DecidableEq, Repr

structure ListedSession (O : Type) where
  id : String
  session : O
deriving DecidableEq, Repr

/-- `!query.agent_id || value.session.agent.id === query.agent_id` -/
def ofAgent (agentId : Option String) (resource : AgentResource (StoredSession S)) : Bool :=
  (agentId.filter (· ≠ "")).all (resource.value.agentId = ·)

/-- `SessionService.list(ownerId, query)`, `none` if it has not returned. `observe` is the public
view of a Session. -/
def list (observe : StoredSession S → O) (store : AgentsStore (StoredSession S)) (fuel : ℕ)
    (ownerId : String) (query : CursorQuery) (agentId : Option String) :
    Option (Except AgentsStoreError (ResourcePage (ListedSession O))) :=
  match pageLimit query.limit with
  | .error e => some (.error (.api e))
  | .ok limit =>
    (listResources store fuel ownerId "sessions" query (ofAgent agentId) limit).map
      (·.map fun selected ↦ .cut (·.id) limit
        (selected.map fun resource ↦ ⟨resource.value.id, observe resource.value⟩))

end SessionService

namespace FileService

variable {F : Type}

structure FileObject (F : Type) where
  id : String
  purpose : String
  expiresAt : Option ℕ
  rest : F
deriving DecidableEq, Repr

/-- A file that has not expired, for the purpose that is asked for. -/
def isListed (now : ℕ) (purpose : Option String) (resource : AgentResource (FileObject F)) : Bool :=
  (resource.value.expiresAt.filter (· ≠ 0)).all (now < ·) &&
    (purpose.filter (· ≠ "")).all (resource.value.purpose = ·)

/-- `FileService.list(ownerId, query)` while the clock shows `now`, `none` if it has not
returned. -/
def list (now : ℕ) (store : AgentsStore (FileObject F)) (fuel : ℕ) (ownerId : String)
    (query : CursorQuery) (purpose : Option String) :
    Option (Except AgentsStoreError (ResourcePage (FileObject F))) :=
  let limit := query.limit.getD 10000
  if ¬ IsPositiveInteger limit ∨ 10000 < limit then
    some (.error (.api (.invalid "Invalid limit" "limit")))
  else
    let limit := limit.num.toNat
    (listResources store fuel ownerId "files" query (isListed now purpose) limit).map
      (·.map fun selected ↦ .cut (·.id) limit (selected.map (·.value)))

end FileService

/-! ## Limits -/

/-- A limit that a list accepts. -/
def IsLimit (limit : Option ℚ) : Prop := ∀ value ∈ limit, IsPositiveInteger value

instance (limit : Option ℚ) : Decidable (IsLimit limit) :=
  inferInstanceAs (Decidable (∀ value ∈ limit, IsPositiveInteger value))

theorem pos_toNat {limit : ℚ} (h : IsPositiveInteger limit) : 0 < limit.num.toNat := by
  obtain ⟨hden, hle⟩ := h
  have hnum : (limit.num : ℚ) = limit := Rat.coe_int_num_of_den_eq_one hden
  rw [← hnum] at hle
  have hone : (1 : ℤ) ≤ limit.num := by exact_mod_cast hle
  omega

theorem pageLimit_of_isLimit {limit : Option ℚ} (h : IsLimit limit) :
    ∃ n, pageLimit limit = .ok n ∧ 0 < n := by
  refine ⟨(min (limit.getD 20) 100).num.toNat, ?_, pos_toNat ?_⟩
  · rw [pageLimit, if_neg]
    rcases limit with _ | value
    · simp
    · simpa using h value rfl
  · have hdefault : IsPositiveInteger (limit.getD 20) := by
      rcases limit with _ | value
      · decide
      · exact h value rfl
    rw [min_def]
    split
    · exact hdefault
    · decide

/-! ## Lists at hand show everything -/

section

variable {α : Type} {idOf : α → Option String} {resources : List α}

/-- **`cursorPage` shows a collection**, in its order or the other way round, if all ids are
different and none is empty. -/
theorem cursorPage_visits (ascending : Bool) (limits : ℕ → Option ℚ)
    (hlimits : ∀ i, IsLimit (limits i))
    (hnodup : (resources.map idOf).Nodup)
    (hids : ∀ resource ∈ resources, idOf resource ≠ none ∧ idOf resource ≠ some "") :
    VisitsOnce (fun i after ↦ ((cursorPage idOf resources ⟨after, limits i, ascending⟩).map
      (idPage idOf)).toOption) (if ascending then resources else resources.reverse) := by
  set sorted := if ascending then resources else resources.reverse with hsorted
  have hmem : ∀ resource ∈ sorted, resource ∈ resources := by
    intro resource hresource
    rw [hsorted] at hresource
    split at hresource
    · exact hresource
    · exact List.mem_reverse.mp hresource
  have hnodup' : (sorted.map idOf).Nodup := by
    rw [hsorted]
    split
    · exact hnodup
    · rw [List.map_reverse]
      exact List.nodup_reverse.mpr hnodup
  choose limit hlimit hpos using fun i ↦ pageLimit_of_isLimit (hlimits i)
  have hcuts : ∀ i, Cuts (fun after ↦ ((cursorPage idOf resources ⟨after, limits i, ascending⟩).map
      (idPage idOf)).toOption) (fun shown ↦ shown.getLast?.bind idOf) (limit i) sorted := by
    intro i shown rest hl hrest
    have hpage : cursorPage idOf resources ⟨shown.getLast?.bind idOf, limits i, ascending⟩ =
        .ok (rest.take (limit i), decide (limit i < rest.length)) := by
      rw [cursorPage, hlimit i]
      dsimp only [bind, Except.bind]
      rw [← hsorted, ← slicePage_append hl]
      -- The cursor is the id of the last resource shown, found again by its id.
      rcases List.eq_nil_or_concat' shown with rfl | ⟨init, last, rfl⟩
      · rfl
      · rw [List.append_assoc, List.singleton_append] at hl
        have hlast : last ∈ sorted := by
          rw [hl]
          exact List.mem_append_right _ List.mem_cons_self
        obtain ⟨hnone, hempty⟩ := hids last (hmem last hlast)
        obtain ⟨id, hid⟩ := Option.ne_none_iff_exists'.mp hnone
        have hne : id ≠ "" := fun heq ↦ hempty (by rw [hid, heq])
        have hafter : ((init ++ [last]).getLast?.bind idOf).filter (· ≠ "") = some id := by
          simp [hid, Option.filter, hne]
        have hindex : sorted.findIdx? (idOf · = some id) = some init.length := by
          refine findIdx?_append hl (decide_eq_true hid) fun other hother ↦ ?_
          rw [hl] at hnodup'
          rw [decide_eq_false_iff_not, ← hid]
          exact ne_of_nodup_append hnodup' other hother
        rw [hafter]
        dsimp only
        rw [hindex, List.length_append]
        rfl
    refine ⟨_, ?_, isCut_of_last (·.bind idOf) (hpos i)⟩
    dsimp only
    rw [hpage]
    rfl
  exact .of_cuts (fun shown ↦ shown.getLast?.bind idOf) hpos rfl hcuts

end

/-! ## Lists from the store show everything

A reader sends the id of the last item it was shown. That is the id of a resource somewhere inside a
page of the store, so that what follows is gathered from pages that begin there. -/

section

variable {V R : Type} {store : AgentsStore V} {ownerId collection : String} {ascending : Bool}
  {listing : List (AgentResource V)} {fuel limit : ℕ} {keep : AgentResource V → Bool}
  {f : AgentResource V → R} {idOf : R → String}

/-- A service that reads the store cuts what it keeps. -/
theorem listResources_cuts (rawLimit : Option ℚ)
    (hstore : store.Lists ownerId collection ascending listing) (hlimit : 0 < limit)
    (hids : ∀ resource ∈ listing, idOf (f resource) = resource.id)
    (hfuel : listing.length < fuel) :
    Cuts (fun after ↦ (((listResources store fuel ownerId collection
        ⟨after, rawLimit, ascending⟩ keep limit).map
          (·.map fun selected ↦ ResourcePage.cut idOf limit (selected.map f))).bind
            (·.toOption)).map ResourcePage.toPage)
      (fun shown ↦ shown.getLast?.map idOf) limit ((listing.filter keep).map f) := by
  have hpages := hstore.cuts 100 (by decide) le_rfl
  refine Cuts.gathered (by decide : 0 < 100) hlimit hpages hids hfuel fun after found hfound ↦ ?_
  dsimp only [listResources]
  rw [hfound]
  simp only [Option.map_some, Option.bind_some, Except.map, Except.toOption, ResourcePage.toPage,
    ResourcePage.cut, List.map_take, List.length_map]

end

/-- **The list of Sessions shows all Sessions of an agent.** -/
theorem SessionService.list_visits {S O : Type} (observe : StoredSession S → O)
    {store : AgentsStore (StoredSession S)} {ownerId : String} {ascending : Bool}
    {listing : List (AgentResource (StoredSession S))}
    (hstore : store.Lists ownerId "sessions" ascending listing) (agentId : Option String)
    (limits : ℕ → Option ℚ) (hlimits : ∀ i, IsLimit (limits i))
    (hids : ∀ resource ∈ listing, resource.value.id = resource.id) {fuel : ℕ}
    (hfuel : listing.length < fuel) :
    VisitsOnce (fun i after ↦ ((SessionService.list observe store fuel ownerId
        ⟨after, limits i, ascending⟩ agentId).bind (·.toOption)).map ResourcePage.toPage)
      ((listing.filter (ofAgent agentId)).map fun resource ↦
        ⟨resource.value.id, observe resource.value⟩) := by
  choose limit hlimit hpos using fun i ↦ pageLimit_of_isLimit (hlimits i)
  refine .of_cuts (fun shown ↦ shown.getLast?.map ListedSession.id) hpos rfl fun i ↦ ?_
  simp only [SessionService.list, hlimit i]
  exact listResources_cuts (limits i) hstore (hpos i) hids hfuel

/-- **The list of files shows all files** that are asked for and have not expired. -/
theorem FileService.list_visits {F : Type} (now : ℕ) {store : AgentsStore (FileObject F)}
    {ownerId : String} {ascending : Bool} {listing : List (AgentResource (FileObject F))}
    (hstore : store.Lists ownerId "files" ascending listing) (purpose : Option String)
    (limits : ℕ → Option ℚ) (hlimits : ∀ i, IsLimit (limits i) ∧ ∀ value ∈ limits i, value ≤ 10000)
    (hids : ∀ resource ∈ listing, resource.value.id = resource.id) {fuel : ℕ}
    (hfuel : listing.length < fuel) :
    VisitsOnce (fun i after ↦ ((FileService.list now store fuel ownerId
        ⟨after, limits i, ascending⟩ purpose).bind (·.toOption)).map ResourcePage.toPage)
      ((listing.filter (isListed now purpose)).map (·.value)) := by
  have hvalid : ∀ i, IsPositiveInteger ((limits i).getD 10000) ∧
      ¬ 10000 < (limits i).getD 10000 := by
    intro i
    obtain ⟨hlimit, hle⟩ := hlimits i
    rcases hvalue : limits i with _ | value
    · exact ⟨by decide, by decide⟩
    · exact ⟨hlimit value hvalue, not_lt.mpr (hle value hvalue)⟩
  refine .of_cuts (fun shown ↦ shown.getLast?.map FileObject.id) (fun i ↦ pos_toNat (hvalid i).1)
    rfl fun i ↦ ?_
  have hguard : ¬ (¬ IsPositiveInteger ((limits i).getD 10000) ∨
      10000 < (limits i).getD 10000) := by
    rw [not_or, not_not]
    exact hvalid i
  simp only [FileService.list, if_neg hguard]
  exact listResources_cuts (limits i) hstore (pos_toNat (hvalid i).1) hids hfuel

/-! ## Both adapters

The local store is read after any operations. Of those on DynamoDB it matters that every write of a
resource names the time at which it was created: the list has its entry under that time. -/

theorem SqliteAgentsStore.lists_after {V : Type} (ops : List (StoreOp V))
    {owner collection : String}
    (ascending : Bool) (hempty : get (after ops) (owner, collection, "") = none) :
    (view (after ops)).Lists owner collection ascending
      (listing (after ops) owner collection ascending) :=
  lists_listing (rows_after ops) hempty

theorem DynamoAgentsStore.lists_after {V : Type} {options : Options} (hhash : Digests options.hash)
    {created : ResourceKey → ℕ} (hbound : ∀ key, created key < 10 ^ 16) {ops : List (StoreOp V)}
    (hcreated : ∀ op ∈ ops, ∀ resource ∈ op.resources, resource.createdAt = created resource.key)
    {owner collection : String} (ascending : Bool)
    (hempty : get options (after options ops) (owner, collection, "") = none) :
    (view options (after options ops)).Lists owner collection ascending
      (listing options (after options ops) owner collection ascending) :=
  lists_listing hbound (consistent_after hhash hbound hcreated) hempty

/-! ## All lists -/

open Environments (EnvironmentFile IsFileLimit environmentDirectory environmentFilePage sortedFiles
  workspace)

/-- **Following cursors visits every resource exactly once**, in the order of the list and whatever
the limits are, if ids are not empty: the empty id is no cursor. The lists that go through the store
do so over any store that lists its collection, as both adapters do. -/
theorem lists_visit_once :
    (∀ {α : Type} (idOf : α → Option String) (resources : List α) (ascending : Bool)
      (limits : ℕ → Option ℚ), (∀ i, IsLimit (limits i)) → (resources.map idOf).Nodup →
      (∀ resource ∈ resources, idOf resource ≠ none ∧ idOf resource ≠ some "") →
      VisitsOnce (fun i after ↦ ((cursorPage idOf resources ⟨after, limits i, ascending⟩).map
        (idPage idOf)).toOption) (if ascending then resources else resources.reverse)) ∧
    (∀ {S O : Type} (observe : SessionService.StoredSession S → O)
      (store : AgentsStore (SessionService.StoredSession S)) (ownerId : String) (ascending : Bool)
      (listing : List (AgentResource (SessionService.StoredSession S))) (agentId : Option String)
      (limits : ℕ → Option ℚ) (fuel : ℕ), store.Lists ownerId "sessions" ascending listing →
      (∀ i, IsLimit (limits i)) → (∀ resource ∈ listing, resource.value.id = resource.id) →
      listing.length < fuel →
      VisitsOnce (fun i after ↦ ((SessionService.list observe store fuel ownerId
          ⟨after, limits i, ascending⟩ agentId).bind (·.toOption)).map ResourcePage.toPage)
        ((listing.filter (SessionService.ofAgent agentId)).map fun resource ↦
          ⟨resource.value.id, observe resource.value⟩)) ∧
    (∀ {F : Type} (now : ℕ) (store : AgentsStore (FileService.FileObject F)) (ownerId : String)
      (ascending : Bool) (listing : List (AgentResource (FileService.FileObject F)))
      (purpose : Option String) (limits : ℕ → Option ℚ) (fuel : ℕ),
      store.Lists ownerId "files" ascending listing →
      (∀ i, IsLimit (limits i) ∧ ∀ value ∈ limits i, value ≤ 10000) →
      (∀ resource ∈ listing, resource.value.id = resource.id) → listing.length < fuel →
      VisitsOnce (fun i after ↦ ((FileService.list now store fuel ownerId
          ⟨after, limits i, ascending⟩ purpose).bind (·.toOption)).map ResourcePage.toPage)
        ((listing.filter (FileService.isListed now purpose)).map (·.value))) ∧
    (∀ {V : Type} (ops : List (StoreOp V)) (owner collection : String) (ascending : Bool),
      SqliteAgentsStore.get (SqliteAgentsStore.after ops) (owner, collection, "") = none →
      (SqliteAgentsStore.view (SqliteAgentsStore.after ops)).Lists owner collection ascending
        (SqliteAgentsStore.listing (SqliteAgentsStore.after ops) owner collection ascending)) ∧
    (∀ {V : Type} (options : DynamoAgentsStore.Options) (created : ResourceKey → ℕ)
      (ops : List (StoreOp V)) (owner collection : String) (ascending : Bool),
      Digests options.hash → (∀ key, created key < 10 ^ 16) →
      (∀ op ∈ ops, ∀ resource ∈ op.resources, resource.createdAt = created resource.key) →
      DynamoAgentsStore.get options (DynamoAgentsStore.after options ops)
        (owner, collection, "") = none →
      (DynamoAgentsStore.view options (DynamoAgentsStore.after options ops)).Lists owner collection
        ascending (DynamoAgentsStore.listing options (DynamoAgentsStore.after options ops) owner
          collection ascending)) ∧
    ∀ {F : Type} (digest : Utf16 → Utf16) (files : List (EnvironmentFile F))
      (ownerId environmentId : Utf16) (rawPath : Option Utf16) (ascending : Bool)
      (limits : ℕ → Option ℚ) (path : Utf16), (∀ i, IsFileLimit (limits i)) →
      environmentDirectory (rawPath.getD workspace) = .ok path → (files.map (·.path)).Nodup →
      VisitsOnce (fun i page ↦ (environmentFilePage digest files ownerId environmentId
        ⟨rawPath, ascending, limits i, page⟩).toOption) (sortedFiles ascending path files) := by
  refine ⟨?_, ?_, ?_, ?_, ?_, ?_⟩
  · intro α idOf resources ascending limits hlimits hnodup hids
    exact cursorPage_visits ascending limits hlimits hnodup hids
  · intro S O observe store ownerId ascending listing agentId limits fuel hstore hlimits hids hfuel
    exact SessionService.list_visits observe hstore agentId limits hlimits hids hfuel
  · intro F now store ownerId ascending listing purpose limits fuel hstore hlimits hids hfuel
    exact FileService.list_visits now hstore purpose limits hlimits hids hfuel
  · intro V ops owner collection ascending hempty
    exact SqliteAgentsStore.lists_after ops ascending hempty
  · intro V options created ops owner collection ascending hhash hbound hcreated hempty
    exact DynamoAgentsStore.lists_after hhash hbound hcreated ascending hempty
  · intro F digest files ownerId environmentId rawPath ascending limits path hlimits hpath hfiles
    exact Environments.environmentFilePage_visits digest files ownerId environmentId rawPath
      ascending limits hlimits hpath hfiles

def listedSampleSession (id agentId : String) (createdAt : ℕ) :
    AgentResource (SessionService.StoredSession Unit) :=
  ⟨id, "owner_1", "sessions", createdAt, 1, none, ⟨id, agentId, ()⟩⟩

def listedSampleFile (id : String) (createdAt : ℕ) (expiresAt : Option ℕ) :
    AgentResource (FileService.FileObject Unit) :=
  ⟨id, "owner_1", "files", createdAt, 1, none, ⟨id, "agent", expiresAt, ()⟩⟩

def listedSampleSessions : List (StoreOp (SessionService.StoredSession Unit)) :=
  [.put (listedSampleSession "s1" "agent_a" 1) 0, .put (listedSampleSession "s2" "agent_b" 2) 0,
    .put (listedSampleSession "s3" "agent_a" 3) 0]

def listedSampleFiles : List (StoreOp (FileService.FileObject Unit)) :=
  [.put (listedSampleFile "f1" 1 none) 0, .put (listedSampleFile "f2" 2 (some 5)) 0,
    .put (listedSampleFile "f3" 3 (some 20)) 0]

/-- The samples are numbered in the order of their creation. -/
def sampleCreated (key : ResourceKey) : ℕ :=
  if key.2.2 = "s1" ∨ key.2.2 = "f1" then 1 else if key.2.2 = "s2" ∨ key.2.2 = "f2" then 2 else 3

theorem sampleCreated_lt (key : ResourceKey) : sampleCreated key < 10 ^ 16 := by
  rw [sampleCreated]
  split
  · decide
  · split <;> decide

/-- Each list shows a sample, one item at a time: Sessions out of the local store, files out of
DynamoDB. -/
theorem lists_visit_once_sample :
    VisitsOnce (fun _ after ↦ ((cursorPage some ["turn_1", "turn_2", "turn_3"]
      ⟨after, some 1, false⟩).map (idPage some)).toOption) ["turn_3", "turn_2", "turn_1"] ∧
    VisitsOnce (fun _ after ↦ ((SessionService.list (fun _ ↦ ()) (SqliteAgentsStore.view
        (SqliteAgentsStore.after listedSampleSessions)) 4 "owner_1" ⟨after, some 1, true⟩
          (some "agent_a")).bind (·.toOption)).map ResourcePage.toPage)
      [⟨"s1", ()⟩, ⟨"s3", ()⟩] ∧
    VisitsOnce (fun _ after ↦ ((FileService.list 10 (DynamoAgentsStore.view sampleStore
        (DynamoAgentsStore.after sampleStore listedSampleFiles)) 4 "owner_1" ⟨after, some 1, true⟩
          none).bind (·.toOption)).map ResourcePage.toPage)
      [⟨"f1", "agent", none, ()⟩, ⟨"f3", "agent", some 20, ()⟩] ∧
    VisitsOnce (fun _ page ↦ (environmentFilePage id
        [⟨workspace ++ Utf16.ascii ['/', 'b'], ()⟩, ⟨workspace ++ Utf16.ascii ['/', 'a'], ()⟩] []
          [] ⟨none, true, some 1, page⟩).toOption)
      [⟨workspace ++ Utf16.ascii ['/', 'a'], ()⟩, ⟨workspace ++ Utf16.ascii ['/', 'b'], ()⟩] := by
  have hsessions := lists_visit_once.2.2.2.1 listedSampleSessions "owner_1" "sessions" true
    (by decide)
  have hfiles := lists_visit_once.2.2.2.2.1 sampleStore sampleCreated listedSampleFiles "owner_1"
    "files" true digests_sample sampleCreated_lt (by decide) (by decide)
  refine ⟨?_, ?_, ?_, ?_⟩
  · exact lists_visit_once.1 some ["turn_1", "turn_2", "turn_3"] false (fun _ ↦ some 1)
      (fun _ ↦ by decide) (by decide) (by decide)
  · exact lists_visit_once.2.1 _ _ "owner_1" true _ (some "agent_a") (fun _ ↦ some 1) 4 hsessions
      (fun _ ↦ by decide) (by decide) (by decide)
  · exact lists_visit_once.2.2.1 10 _ "owner_1" true _ none (fun _ ↦ some 1) 4 hfiles
      (fun _ ↦ by decide) (by decide) (by decide)
  · exact lists_visit_once.2.2.2.2.2 id _ [] [] none true (fun _ ↦ some 1) workspace
      (fun _ ↦ by decide) (by decide) (by decide)

/-- A resource without an id, or with an empty one, is no cursor: its page is followed by the first
one again. -/
theorem cursorPage_repeats :
    ([none, some "turn_1"] : List (Option String)).Nodup ∧
    ¬ VisitsOnce (fun _ after ↦ ((cursorPage id [none, some "turn_1"] ⟨after, some 1, true⟩).map
      (idPage id)).toOption) [none, some "turn_1"] ∧
    ¬ VisitsOnce (fun _ after ↦ ((cursorPage id [some "", some "turn_1"] ⟨after, some 1, true⟩).map
      (idPage id)).toOption) [some "", some "turn_1"] :=
  ⟨by decide, fun h ↦ absurd h.all (by decide), fun h ↦ absurd h.all (by decide)⟩

end RatThings
