import RatThings.Stores.Listings
import RatThings.Stores.Pages
import RatThings.Stores.Transactions

/-!
# Pages of the DynamoDB store

A list is a partition of its own, whose sort keys begin with the time of creation. A query goes
through it from a sort key on, in as many requests as DynamoDB needs, and asks for one entry more
than the page shows. The cursor of a page is an id, so that the sort key is made anew from the root
of the resource: since roots and entries are consistent, it is the one of the resource's entry, and
the next page begins right behind it.

This needs nothing of the operations that have run but that each resource keeps its time of
creation.
-/

namespace RatThings

open Concurrent

variable {V : Type}

namespace DynamoAgentsStore

variable {options : Options} {created : ResourceKey → ℕ} {d : DynamoTable V}
  {owner collection : String} {ascending : Bool} {limit : ℕ}

/-! ## The listing -/

/-- The entries of a list. -/
def entriesOf (options : Options) (owner collection : String) (ascending : Bool)
    (d : DynamoTable V) : List (ItemKey × DynamoItem V) :=
  itemsFrom options owner collection ascending none d

/-- A collection in the order of its sort keys. -/
def listing (options : Options) (d : DynamoTable V) (owner collection : String)
    (ascending : Bool) : List (AgentResource V) :=
  (sortBy ascending (fun entry ↦ entry.1.2) (entriesOf options owner collection ascending d)).map
    fun entry ↦ hydrate entry.2.index

theorem mem_entriesOf (h : Consistent options created d) {entry : ItemKey × DynamoItem V} :
    entry ∈ entriesOf options owner collection ascending d ↔
      ∃ id, d.get? (rootKey options (owner, collection, id)) = some entry.2 ∧
        entry.2.deleted = false ∧ entry.1 = (listScope options owner collection,
          orderKey (created (owner, collection, id)) id) := by
  have hitems : entry ∈ itemsFrom options owner collection ascending (Option.map startKey none) d ↔
      _ := mem_itemsFrom h
  refine hitems.trans (exists_congr fun id ↦ ?_)
  simp

/-- An entry is the one of its resource. -/
theorem sortKey_eq (h : Consistent options created d) {entry : ItemKey × DynamoItem V}
    (hentry : entry ∈ entriesOf options owner collection ascending d) :
    (hydrate entry.2.index).key = (owner, collection, entry.2.index.id) ∧
      d.get? (rootKey options (owner, collection, entry.2.index.id)) = some entry.2 ∧
      entry.2.deleted = false ∧ entry.2.index.createdAt =
        created (owner, collection, entry.2.index.id) ∧
      entry.1.2 = orderKey entry.2.index.createdAt entry.2.index.id := by
  obtain ⟨id, hroot, hdeleted, hkey⟩ := (mem_entriesOf h).mp hentry
  obtain ⟨hself, hcreated, -⟩ := h.roots _ _ hroot
  obtain rfl : entry.2.index.id = id := congrArg (fun key : ResourceKey ↦ key.2.2) hself
  exact ⟨hself, hroot, hdeleted, hcreated, by rw [hkey, hcreated]⟩

theorem nodup_sortKeys :
    ((entriesOf options owner collection ascending d).map fun entry ↦ entry.1.2).Nodup := by
  refine (List.Nodup.filter _ (List.Nodup.of_map _ d.nodup)).map_on ?_
  intro entry hentry entry' hentry' heq
  obtain ⟨hmem, hscope⟩ := List.mem_filter.mp hentry
  obtain ⟨hmem', hscope'⟩ := List.mem_filter.mp hentry'
  have hkey : entry.1 = entry'.1 :=
    Prod.ext ((of_decide_eq_true hscope).1.trans (of_decide_eq_true hscope').1.symm) heq
  exact List.inj_on_of_nodup_map d.nodup hmem hmem' hkey

theorem itemsFrom_some (key : String) :
    itemsFrom options owner collection ascending (some key) d =
      (entriesOf options owner collection ascending d).filter
        fun entry ↦ Beyond ascending key entry.1.2 := by
  rw [entriesOf, itemsFrom, itemsFrom, List.filter_filter]
  refine List.filter_congr fun entry _ ↦ ?_
  rw [Bool.eq_iff_iff]
  simp only [decide_eq_true_eq, Bool.and_eq_true, Option.some.injEq, forall_eq', reduceCtorEq,
    false_implies, implies_true, and_true]
  tauto

theorem mem_listing (h : Consistent options created d) {resource : AgentResource V} :
    resource ∈ listing options d owner collection ascending ↔
      resource.ownerId = owner ∧ resource.collection = collection ∧
        get options d resource.key = some resource := by
  rw [listing, List.mem_map, get_eq_some]
  constructor
  · rintro ⟨entry, hentry, rfl⟩
    obtain ⟨hkey, hroot, hdeleted, -, -⟩ := sortKey_eq h (mem_sortBy.mp hentry)
    obtain ⟨howner, hrest⟩ := Prod.mk.inj hkey
    obtain ⟨hcollection, -⟩ := Prod.mk.inj hrest
    rw [hkey]
    exact ⟨howner, hcollection, entry.2, hroot, hdeleted, rfl⟩
  · rintro ⟨rfl, rfl, item, hroot, hdeleted, rfl⟩
    obtain ⟨-, hcreated, -⟩ := h.roots _ _ hroot
    refine ⟨((listScope options item.index.ownerId item.index.collection,
      orderKey (created (hydrate item.index).key) item.index.id), item), ?_, rfl⟩
    exact mem_sortBy.mpr ((mem_entriesOf h).mpr ⟨item.index.id, hroot, hdeleted, rfl⟩)

/-! ## Pages -/

/-- A query shows the first entries from its start on, in however many requests they arrive. -/
theorem query_eq {start : Option String} {after : Option String} (hlimit : 0 < limit)
    (hmaximum : limit ≤ 100) :
    query options owner collection ⟨some limit, ascending, after⟩ start d =
      .ok (pageOf ascending (fun entry ↦ entry.1.2) (fun entry ↦ hydrate entry.2.index) limit
        (itemsFrom options owner collection ascending start d)) := by
  have hcapped : min (AgentListParams.maximum ⟨some limit, ascending, after⟩) 100 = limit :=
    min_eq_left hmaximum
  rw [query, hcapped, if_neg (by omega)]
  dsimp only
  rw [fetch_eq _ (Nat.succ_pos limit)]
  rfl

/-- A cursor is looked up, and its entry found. -/
theorem list_after (h : Consistent options created d) {entry : ItemKey × DynamoItem V}
    (hentry : entry ∈ entriesOf options owner collection ascending d)
    (hid : entry.2.index.id ≠ "") (hlimit : 0 < limit) (hmaximum : limit ≤ 100) :
    list options d owner collection ⟨some limit, ascending, some entry.2.index.id⟩ =
      .ok (pageOf ascending (fun entry ↦ entry.1.2) (fun entry ↦ hydrate entry.2.index) limit
        ((entriesOf options owner collection ascending d).filter
          fun other ↦ Beyond ascending entry.1.2 other.1.2)) := by
  obtain ⟨-, hroot, -, -, hsort⟩ := sortKey_eq h hentry
  have hcursor : AgentListParams.cursor? ⟨some limit, ascending, some entry.2.index.id⟩ =
      some entry.2.index.id := by
    simp [AgentListParams.cursor?, Option.filter, hid]
  rw [list, hcursor]
  dsimp only
  rw [hroot]
  dsimp only
  rw [query_eq hlimit hmaximum, ← hsort, itemsFrom_some]

/-- The store, as services read it. -/
def view (options : Options) (d : DynamoTable V) : AgentsStore V := ⟨get options d, list options d⟩

/-- **The DynamoDB store lists a collection**, if no id in it is empty. -/
theorem lists_listing (hbound : ∀ key, created key < 10 ^ 16) (h : Consistent options created d)
    (hempty : get options d (owner, collection, "") = none) :
    (view options d).Lists owner collection ascending
      (listing options d owner collection ascending) where
  mem resource := mem_listing h
  ordered := by
    refine List.pairwise_map.mpr ((pairwise_beyond_sortBy nodup_sortKeys).imp_of_mem ?_)
    intro entry other hentry hother hbeyond
    obtain ⟨-, -, -, hcreated, hsort⟩ := sortKey_eq h (mem_sortBy.mp hentry)
    obtain ⟨-, -, -, hcreated', hsort'⟩ := sortKey_eq h (mem_sortBy.mp hother)
    have hfirst : entry.2.index.createdAt < 10 ^ 16 := hcreated ▸ hbound _
    have hsecond : other.2.index.createdAt < 10 ^ 16 := hcreated' ▸ hbound _
    rw [hsort, hsort'] at hbeyond
    exact (@beyond_startKey _ (_, _) _ _ hfirst hsecond).mp hbeyond
  cuts limit hlimit hmaximum := by
    have hids : ∀ entry ∈ entriesOf options owner collection ascending d,
        entry.2.index.id ≠ "" := by
      intro entry hentry hid
      obtain ⟨-, hroot, hdeleted, -, -⟩ := sortKey_eq h hentry
      rw [hid] at hroot
      rw [get_eq_some.mpr ⟨entry.2, hroot, hdeleted, rfl⟩] at hempty
      cases hempty
    exact cuts_of_select nodup_sortKeys hids hlimit (query_eq hlimit hmaximum)
      fun entry hentry ↦ list_after h hentry (hids entry hentry) hlimit hmaximum

end DynamoAgentsStore

end RatThings
