import RatThings.Library.Pages
import RatThings.Stores.Operations

/-!
# Pages of the stores

Services read a collection one page at a time. What they rely on is stated once, for any store
(`AgentsStore.Lists`): the listing of a collection is complete, in the order of creation, and cut
into pages, each of which is found by the id of the last resource before it.

An adapter keeps the collection as entries of its own, sorted by a key of its own, and looks an id
up to find the key behind which the next page begins. If keys are different, and the key that is
found is the one the resource was listed under, its pages are cut off the listing
(`cuts_of_select`). The local store keeps every row under the key of its resource, with its time of
creation (`Rows`), so that the place of a cursor is the place the resource has in the listing.
-/

namespace RatThings

open Concurrent

variable {V : Type}

/-- A page of the store, for a service that goes on with the id of its last resource, unless that is
empty. -/
def ListPage.toPage (page : ListPage V) : Page (AgentResource V) String where
  data := page.data
  hasMore := page.hasMore
  next := (page.data.getLast?.map (·.id)).filter (· ≠ "")

theorem ListPage.toPage_eq {page : ListPage V} (h : ∀ resource ∈ page.data, resource.id ≠ "") :
    page.toPage = ⟨page.data, page.hasMore, page.data.getLast?.map (·.id)⟩ := by
  rw [toPage]
  rcases hlast : page.data.getLast? with _ | resource
  · rfl
  · simp [Option.filter, h resource (List.mem_of_getLast? hlast)]

theorem ofEntries_take {limit : ℕ} (l : List (AgentResource V)) :
    ListPage.ofEntries limit (l.take (limit + 1)) = ⟨l.take limit, decide (limit < l.length)⟩ := by
  rw [ListPage.ofEntries, List.take_take, List.length_take]
  congr 2
  · omega
  · rw [eq_iff_iff]
    omega

/-! ## What services rely on

The collection is what `get` finds in it. Its order is that of the time of creation, and of the id
among resources that were created at one time. -/

/-- The port, for a service that reads: a store in one of its states. -/
structure AgentsStore (V : Type) where
  get : ResourceKey → Option (AgentResource V)
  list : String → String → AgentListParams → Except AgentsStoreError (ListPage V)

/-- The listing of a collection: complete, in order, and cut into pages. -/
structure AgentsStore.Lists (store : AgentsStore V) (owner collection : String) (ascending : Bool)
    (l : List (AgentResource V)) : Prop where
  mem : ∀ resource, resource ∈ l ↔ resource.ownerId = owner ∧ resource.collection = collection ∧
    store.get resource.key = some resource
  ordered : l.Pairwise fun a b ↦
    Beyond ascending (toLex (a.createdAt, a.id)) (toLex (b.createdAt, b.id))
  cuts : ∀ limit, 0 < limit → limit ≤ 100 →
    Cuts (fun after ↦ ((store.list owner collection ⟨some limit, ascending, after⟩).map
      ListPage.toPage).toOption) (fun shown ↦ shown.getLast?.map (·.id)) limit l

/-! ## Entries under a key -/

section Entries

variable {E K : Type} [LinearOrder K] (ascending : Bool) (key : E → K)
  (resource : E → AgentResource V) (limit : ℕ)

/-- The first page of some entries. -/
def pageOf (entries : List E) : ListPage V :=
  .ofEntries limit (((sortBy ascending key entries).take (limit + 1)).map resource)

variable {ascending key resource limit} {entries : List E}

/-- **An adapter cuts a collection into pages**, if the entries it shows behind a cursor are those
whose key is beyond the one of the cursor's entry. -/
theorem cuts_of_select {list : AgentListParams → Except AgentsStoreError (ListPage V)}
    (hkeys : (entries.map key).Nodup) (hids : ∀ entry ∈ entries, (resource entry).id ≠ "")
    (hlimit : 0 < limit)
    (hfirst : list ⟨some limit, ascending, none⟩ =
      .ok (pageOf ascending key resource limit entries))
    (hnext : ∀ entry ∈ entries, list ⟨some limit, ascending, some (resource entry).id⟩ =
      .ok (pageOf ascending key resource limit
        (entries.filter fun other ↦ Beyond ascending (key entry) (key other)))) :
    Cuts (fun after ↦ ((list ⟨some limit, ascending, after⟩).map ListPage.toPage).toOption)
      (fun shown ↦ shown.getLast?.map (·.id)) limit
      ((sortBy ascending key entries).map resource) := by
  intro shown rest hl hrest
  -- What is selected behind `shown` is `rest`.
  have hpage : list ⟨some limit, ascending, shown.getLast?.map (·.id)⟩ =
      .ok ⟨rest.take limit, decide (limit < rest.length)⟩ := by
    rcases List.eq_nil_or_concat' shown with rfl | ⟨init, last, rfl⟩
    · obtain rfl : (sortBy ascending key entries).map resource = rest := hl
      rw [← ofEntries_take, ← List.map_take]
      exact hfirst
    · rw [List.append_assoc, List.singleton_append] at hl
      obtain ⟨first, behind, hsorted, rfl, hbehind⟩ := List.map_eq_append_iff.mp hl
      obtain ⟨entry, behind, rfl, rfl, rfl⟩ := List.map_eq_cons_iff.mp hbehind
      have hentry : entry ∈ entries := by
        have hmem : entry ∈ sortBy ascending key entries := by
          rw [hsorted]
          exact List.mem_append_right _ List.mem_cons_self
        exact mem_sortBy.mp hmem
      rw [List.getLast?_concat, Option.map_some, hnext entry hentry, pageOf,
        sortBy_filter_beyond hkeys hsorted, ← ofEntries_take, ← List.map_take]
  have hshown : ∀ resource ∈ rest.take limit, resource.id ≠ "" := by
    intro shown' hshown'
    have hmem : shown' ∈ (sortBy ascending key entries).map resource := by
      rw [hl]
      exact List.mem_append_right _ (List.mem_of_mem_take hshown')
    obtain ⟨entry, hentry, rfl⟩ := List.mem_map.mp hmem
    exact hids entry (mem_sortBy.mp hentry)
  refine ⟨_, ?_, isCut_map AgentResource.id hlimit⟩
  dsimp only
  rw [hpage, Except.map, ListPage.toPage_eq hshown]
  rfl

end Entries

/-! ## The local store -/

namespace SqliteAgentsStore

/-- Every row is kept under the key of its resource, with its time of creation. -/
def Rows (table : SqliteTable V) : Prop :=
  ∀ key row, table.get? key = some row → row.payload.key = key ∧ row.created = row.payload.createdAt

/-! ## Rows of a reachable table -/

variable {table : SqliteTable V}

theorem Rows.write (h : Rows table) (resource : AgentResource V) : Rows (write table resource) := by
  intro key row hrow
  by_cases hkey : key = resource.key
  · subst hkey
    rw [SqliteAgentsStore.write, OrderedMap.get?_set_self] at hrow
    obtain rfl := Option.some.inj hrow
    exact ⟨rfl, rfl⟩
  · rw [SqliteAgentsStore.write, OrderedMap.get?_set_of_ne _ hkey] at hrow
    exact h key row hrow

theorem Rows.foldl_write (h : Rows table) (writes : List (ResourceWrite V)) :
    Rows (writes.foldl (fun table w ↦ SqliteAgentsStore.write table w.resource) table) := by
  induction writes generalizing table with
  | nil => exact h
  | cons w writes ih => exact ih (h.write w.resource)

theorem Rows.erase (h : Rows table) (key : ResourceKey) : Rows (table.erase key) := by
  intro key' row hrow
  by_cases hkey : key' = key
  · subst hkey
    rw [OrderedMap.get?_erase_self] at hrow
    exact nomatch hrow
  · rw [OrderedMap.get?_erase_of_ne _ hkey] at hrow
    exact h key' row hrow

theorem rows_of_commit {writes : List (ResourceWrite V)} {table' : SqliteTable V} (h : Rows table)
    (hcommit : commit table writes = .ok table') : Rows table' := by
  obtain ⟨_, -, hcommit⟩ := eq_ok_of_bind hcommit
  obtain rfl := Except.ok.inj hcommit
  exact h.foldl_write writes

theorem rows_of_delete {resource : AgentResource V} {writes : List (ResourceWrite V)}
    {table' : SqliteTable V} (h : Rows table)
    (hdelete : delete table resource writes = .ok table') :
    Rows table' := by
  obtain ⟨_, -, hdelete⟩ := eq_ok_of_bind hdelete
  obtain ⟨_, -, hdelete⟩ := eq_ok_of_bind hdelete
  obtain rfl := Except.ok.inj hdelete
  exact (h.foldl_write writes).erase resource.key

theorem rows_settle {result : Except AgentsStoreError (SqliteTable V)} (h : Rows table)
    (hresult : ∀ table', result = .ok table' → Rows table') :
    Rows (settle table result : Except AgentsStoreError (StoreAnswer V) × SqliteTable V).2 := by
  rcases result with e | table'
  · exact h
  · exact hresult table' rfl

/-- **An operation keeps the rows in order.** -/
theorem rows_step (h : Rows table) (op : StoreOp V) : Rows (step table op).2 := by
  rcases op with _ | _ | ⟨resource, revision⟩ | writes | ⟨resource, writes⟩
  · exact h
  · exact h
  · exact rows_settle h fun _ ↦ rows_of_commit h
  · exact rows_settle h fun _ ↦ rows_of_commit h
  · exact rows_settle h fun _ ↦ rows_of_delete h

theorem rows_after (ops : List (StoreOp V)) : Rows (after ops) := by
  have hrun : ∀ table : SqliteTable V, Rows table →
      Rows (ops.foldl (fun table op ↦ (step table op).2) table) := by
    induction ops with
    | nil => exact fun _ h ↦ h
    | cons op ops ih => exact fun table h ↦ ih _ (rows_step h op)
  exact hrun .empty fun key row hrow ↦ nomatch hrow

/-! ## Pages -/

section Pages

variable {owner collection : String} {ascending : Bool} {limit : ℕ}

/-- A collection in the order of its creation. -/
def listing (table : SqliteTable V) (owner collection : String) (ascending : Bool) :
    List (AgentResource V) :=
  (sortBy ascending order (rowsFrom owner collection ascending none table)).map (·.2.payload)

theorem mem_rowsFrom_none {entry : ResourceKey × SqlRow V} :
    entry ∈ rowsFrom owner collection ascending none table ↔
      table.get? entry.1 = some entry.2 ∧ entry.1.1 = owner ∧ entry.1.2.1 = collection := by
  rw [rowsFrom, List.mem_filter, OrderedMap.get?_eq_some]
  simp

theorem nodup_order : ((rowsFrom owner collection ascending none table).map order).Nodup := by
  refine (List.Nodup.filter _ (List.Nodup.of_map _ table.nodup)).map_on ?_
  intro entry hentry entry' hentry' heq
  obtain ⟨hget, howner, hcollection⟩ := mem_rowsFrom_none.mp hentry
  obtain ⟨hget', howner', hcollection'⟩ := mem_rowsFrom_none.mp hentry'
  have hid : entry.1.2.2 = entry'.1.2.2 := congrArg (fun place ↦ (ofLex place).2) heq
  have hkey : entry.1 = entry'.1 :=
    Prod.ext (howner.trans howner'.symm) (Prod.ext (hcollection.trans hcollection'.symm) hid)
  rw [hkey] at hget
  exact Prod.ext hkey (Option.some.inj (hget.symm.trans hget'))

theorem rowsFrom_some (place : ℕ × String) :
    rowsFrom owner collection ascending (some place) table =
      (rowsFrom owner collection ascending none table).filter
        fun entry ↦ Beyond ascending (toLex place) (order entry) := by
  rw [rowsFrom, rowsFrom, List.filter_filter]
  refine List.filter_congr fun entry _ ↦ ?_
  rw [Bool.eq_iff_iff]
  simp only [decide_eq_true_eq, Bool.and_eq_true, Option.some.injEq, forall_eq', reduceCtorEq,
    false_implies, implies_true, and_true]
  tauto

theorem get_eq_some {key : ResourceKey} {resource : AgentResource V} :
    get table key = some resource ↔ ∃ row, table.get? key = some row ∧ row.payload = resource :=
  Option.map_eq_some_iff

theorem mem_listing (hrows : Rows table) {resource : AgentResource V} :
    resource ∈ listing table owner collection ascending ↔
      resource.ownerId = owner ∧ resource.collection = collection ∧
        get table resource.key = some resource := by
  rw [listing, List.mem_map, get_eq_some]
  constructor
  · rintro ⟨entry, hentry, rfl⟩
    obtain ⟨hget, rfl, rfl⟩ := mem_rowsFrom_none.mp (mem_sortBy.mp hentry)
    obtain ⟨hkey, -⟩ := hrows entry.1 entry.2 hget
    rw [hkey, ← hkey]
    exact ⟨rfl, rfl, entry.2, hkey ▸ hget, rfl⟩
  · rintro ⟨rfl, rfl, row, hrow, rfl⟩
    exact ⟨(row.payload.key, row), mem_sortBy.mpr (mem_rowsFrom_none.mpr ⟨hrow, rfl, rfl⟩), rfl⟩

/-- The place of a row is that of its resource. -/
theorem order_eq (hrows : Rows table) {entry : ResourceKey × SqlRow V}
    (hentry : entry ∈ rowsFrom owner collection ascending none table) :
    order entry = toLex (entry.2.payload.createdAt, entry.2.payload.id) := by
  obtain ⟨hget, -, -⟩ := mem_rowsFrom_none.mp hentry
  obtain ⟨hkey, hcreated⟩ := hrows entry.1 entry.2 hget
  rw [order, hcreated, ← hkey]
  rfl

/-- A cursor is looked up, and its row found. -/
theorem list_after (hrows : Rows table) {entry : ResourceKey × SqlRow V}
    (hentry : entry ∈ rowsFrom owner collection ascending none table)
    (hid : entry.2.payload.id ≠ "") :
    list table owner collection ⟨some limit, ascending, some entry.2.payload.id⟩ =
      .ok (pageOf ascending order (·.2.payload) limit
        ((rowsFrom owner collection ascending none table).filter
          fun other ↦ Beyond ascending (order entry) (order other))) := by
  have horder := order_eq hrows hentry
  obtain ⟨hget, rfl, rfl⟩ := mem_rowsFrom_none.mp hentry
  obtain ⟨hkey, -⟩ := hrows entry.1 entry.2 hget
  have hfound : get table (entry.1.1, entry.1.2.1, entry.2.payload.id) = some entry.2.payload :=
    get_eq_some.mpr ⟨entry.2, by rw [← hkey] at hget ⊢; exact hget, rfl⟩
  have hcursor : AgentListParams.cursor? ⟨some limit, ascending, some entry.2.payload.id⟩ =
      some entry.2.payload.id := by
    simp [AgentListParams.cursor?, Option.filter, hid]
  rw [list, hcursor]
  dsimp only
  rw [hfound]
  dsimp only
  rw [select, rowsFrom_some, ← horder]
  rfl

/-- The store, as services read it. -/
def view (table : SqliteTable V) : AgentsStore V := ⟨get table, list table⟩

/-- **The local store lists a collection**, if no id in it is empty. -/
theorem lists_listing (hrows : Rows table) (hempty : get table (owner, collection, "") = none) :
    (view table).Lists owner collection ascending (listing table owner collection ascending) where
  mem resource := mem_listing hrows
  ordered := by
    refine List.pairwise_map.mpr ((pairwise_beyond_sortBy nodup_order).imp_of_mem ?_)
    intro entry other hentry hother hbeyond
    rw [← order_eq hrows (mem_sortBy.mp hentry), ← order_eq hrows (mem_sortBy.mp hother)]
    exact hbeyond
  cuts limit hlimit _ := by
    have hids : ∀ entry ∈ rowsFrom owner collection ascending none table,
        entry.2.payload.id ≠ "" := by
      intro entry hentry hid
      obtain ⟨hget, rfl, rfl⟩ := mem_rowsFrom_none.mp hentry
      obtain ⟨hkey, -⟩ := hrows entry.1 entry.2 hget
      rw [← hid, get, show (entry.1.1, entry.1.2.1, entry.2.payload.id) = entry.1 by
        rw [← hkey]; rfl, hget] at hempty
      cases hempty
    exact cuts_of_select nodup_order hids hlimit rfl
      fun entry hentry ↦ list_after hrows hentry (hids entry hentry)

end Pages

end SqliteAgentsStore

end RatThings
