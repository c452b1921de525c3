import RatThings.Stores.Mirror
import RatThings.Stores.Operations

/-!
# Listings of both stores

The rows of a collection are sorted by their time of creation and their id, the entries of a list by
one string made of both. A page begins after a cursor, which the local store looks up among its rows
and the other one among its roots.

The string orders entries as the pair does, since times are written with as many digits as the
largest one needs. So the entries behind a place in one listing are those of the rows behind the
same place in the other, and pages of one size have the same resources.
-/

namespace RatThings

open Concurrent

variable {V : Type}

namespace DynamoAgentsStore

variable {options : Options} {created : ResourceKey → ℕ} {s : SqliteTable V} {d : DynamoTable V}

/-- What an entry is in the other store. -/
def mirrored (entry : ItemKey × DynamoItem V) : ResourceKey × SqlRow V :=
  ((hydrate entry.2.index).key, (hydrate entry.2.index).row)

/-- A place in a listing, after which it goes on. -/
def startKey (start : ℕ × String) : String := orderKey start.1 start.2

theorem beyond_startKey {ascending : Bool} {start : ℕ × String} {n : ℕ} {id : String}
    (hstart : start.1 < 10 ^ 16) (hn : n < 10 ^ 16) :
    Beyond ascending (startKey start) (orderKey n id) ↔
      Beyond ascending (toLex start) (toLex (n, id)) := by
  cases ascending
  · exact orderKey_lt hn hstart
  · exact orderKey_lt hstart hn

variable {owner collection : String} {ascending : Bool} {start : Option (ℕ × String)}

/-- The items of a listing are the roots that are not deleted. -/
theorem mem_itemsFrom (h : Consistent options created d) {entry : ItemKey × DynamoItem V} :
    entry ∈ itemsFrom options owner collection ascending (start.map startKey) d ↔
      ∃ id, d.get? (rootKey options (owner, collection, id)) = some entry.2 ∧
        entry.2.deleted = false ∧
        entry.1 = (listScope options owner collection,
          orderKey (created (owner, collection, id)) id) ∧
        ∀ place, start = some place → Beyond ascending (startKey place) entry.1.2 := by
  obtain ⟨⟨scope, sort⟩, item⟩ := entry
  rw [itemsFrom, List.mem_filter, decide_eq_true_iff, ← OrderedMap.get?_eq_some]
  simp only [Option.map_eq_some_iff]
  constructor
  · rintro ⟨hget, rfl, hbeyond⟩
    obtain ⟨id, hroot, hdeleted, rfl⟩ := (h.entries owner collection sort item).mp hget
    exact ⟨id, hroot, hdeleted, rfl, fun place hplace ↦ hbeyond _ ⟨place, hplace, rfl⟩⟩
  · rintro ⟨id, hroot, hdeleted, hkey, hbeyond⟩
    obtain ⟨rfl, rfl⟩ := Prod.mk.inj hkey
    refine ⟨(h.entries owner collection _ item).mpr ⟨id, hroot, hdeleted, rfl⟩, rfl, ?_⟩
    rintro key ⟨place, hplace, rfl⟩
    exact hbeyond place hplace

theorem mem_rowsFrom (h : Mirrors options created s d) {entry : ResourceKey × SqlRow V} :
    entry ∈ SqliteAgentsStore.rowsFrom owner collection ascending start s ↔
      ∃ id item, d.get? (rootKey options (owner, collection, id)) = some item ∧
        item.deleted = false ∧ entry = ((owner, collection, id), (hydrate item.index).row) ∧
        ∀ place, start = some place →
          Beyond ascending (toLex place) (toLex (created (owner, collection, id), id)) := by
  obtain ⟨⟨owner', collection', id⟩, row⟩ := entry
  rw [SqliteAgentsStore.rowsFrom, List.mem_filter, decide_eq_true_iff,
    ← OrderedMap.get?_eq_some, h.rows]
  simp only [Option.map_eq_some_iff, SqliteAgentsStore.order]
  constructor
  · rintro ⟨⟨resource, hget, rfl⟩, rfl, rfl, hbeyond⟩
    obtain ⟨item, hroot, hdeleted, rfl⟩ := get_eq_some.mp hget
    obtain ⟨-, hcreated, -⟩ := h.roots _ item hroot
    exact ⟨id, item, hroot, hdeleted, rfl, fun place hplace ↦ hcreated ▸ hbeyond place hplace⟩
  · rintro ⟨id', item, hroot, hdeleted, hentry, hbeyond⟩
    obtain ⟨hkey, rfl⟩ := Prod.mk.inj hentry
    cases hkey
    obtain ⟨-, hcreated, -⟩ := h.roots _ item hroot
    refine ⟨⟨hydrate item.index, get_eq_some.mpr ⟨item, hroot, hdeleted, rfl⟩, rfl⟩, rfl, rfl,
      fun place hplace ↦ ?_⟩
    exact (congrArg (fun n ↦ Beyond ascending (toLex place) (toLex (n, id))) hcreated).mpr
      (hbeyond place hplace)

/-- The two stores list the same resources in the same order. -/
theorem sorted_eq (h : Mirrors options created s d) (hbound : ∀ key, created key < 10 ^ 16)
    (hstart : ∀ place, start = some place → place.1 < 10 ^ 16) :
    ((sortBy ascending (fun entry ↦ entry.1.2)
        (itemsFrom options owner collection ascending (start.map startKey) d)).map mirrored) =
      sortBy ascending SqliteAgentsStore.order
        (SqliteAgentsStore.rowsFrom owner collection ascending start s) := by
  have hmirrored : ∀ id item, d.get? (rootKey options (owner, collection, id)) = some item →
      ∀ key, mirrored (key, item) = ((owner, collection, id), (hydrate item.index).row) :=
    fun id item hroot _ ↦ Prod.ext (h.roots _ item hroot).1 rfl
  -- Both sides sort lists without repetition; they have the same members and the same order.
  refine map_sortBy ?_ ?_ (fun row ↦ ?_) fun entry hentry entry' hentry' ↦ ?_
  · refine List.Nodup.map_on (fun entry hentry entry' hentry' heq ↦ ?_)
      (d.nodup.of_map _ |>.sublist List.filter_sublist)
    obtain ⟨id, hroot, -, hkey, -⟩ := (mem_itemsFrom h.toConsistent).mp hentry
    obtain ⟨id', hroot', -, hkey', -⟩ := (mem_itemsFrom h.toConsistent).mp hentry'
    have hsame : entry.1 = entry'.1 := by
      rw [Prod.ext_iff]
      exact ⟨by rw [hkey, hkey'], heq⟩
    exact List.inj_on_of_nodup_map d.nodup (List.mem_of_mem_filter hentry)
      (List.mem_of_mem_filter hentry') hsame
  · refine List.Nodup.map_on (fun entry hentry entry' hentry' heq ↦ ?_)
      (s.nodup.of_map _ |>.sublist List.filter_sublist)
    obtain ⟨id, item, -, -, rfl, -⟩ := (mem_rowsFrom h).mp hentry
    obtain ⟨id', item', -, -, rfl, -⟩ := (mem_rowsFrom h).mp hentry'
    obtain ⟨-, rfl⟩ := Prod.mk.inj heq
    exact List.inj_on_of_nodup_map s.nodup (List.mem_of_mem_filter hentry)
      (List.mem_of_mem_filter hentry') rfl
  · rw [mem_rowsFrom h]
    constructor
    · rintro ⟨id, item, hroot, hdeleted, rfl, hbeyond⟩
      refine ⟨((listScope options owner collection,
        orderKey (created (owner, collection, id)) id), item),
        (mem_itemsFrom h.toConsistent).mpr ⟨id, hroot, hdeleted, rfl, fun place hplace ↦ ?_⟩,
        hmirrored id item hroot _⟩
      exact (beyond_startKey (hstart place hplace) (hbound _)).mpr (hbeyond place hplace)
    · rintro ⟨entry, hentry, rfl⟩
      obtain ⟨id, hroot, hdeleted, hkey, hbeyond⟩ := (mem_itemsFrom h.toConsistent).mp hentry
      refine ⟨id, entry.2, hroot, hdeleted, hmirrored id entry.2 hroot entry.1,
        fun place hplace ↦ ?_⟩
      have hbeyond := hbeyond place hplace
      rw [hkey] at hbeyond
      exact (beyond_startKey (hstart place hplace) (hbound _)).mp hbeyond
  · obtain ⟨id, hroot, -, hkey, -⟩ := (mem_itemsFrom h.toConsistent).mp hentry
    obtain ⟨id', hroot', -, hkey', -⟩ := (mem_itemsFrom h.toConsistent).mp hentry'
    have horder : ∀ id item key, d.get? (rootKey options (owner, collection, id)) = some item →
        SqliteAgentsStore.order (mirrored (key, item)) =
          toLex (created (owner, collection, id), id) := by
      intro id item key hroot
      obtain ⟨-, hcreated, -⟩ := h.roots _ item hroot
      rw [hmirrored id item hroot, ← hcreated]
      rfl
    have hfirst : SqliteAgentsStore.order (mirrored entry) =
        toLex (created (owner, collection, id), id) := horder id entry.2 entry.1 hroot
    have hsecond : SqliteAgentsStore.order (mirrored entry') =
        toLex (created (owner, collection, id'), id') := horder id' entry'.2 entry'.1 hroot'
    rw [hfirst, hsecond, hkey, hkey']
    exact orderKey_lt (hbound _) (hbound _)

theorem query_eq_select {query : AgentListParams} (h : Mirrors options created s d)
    (hbound : ∀ key, created key < 10 ^ 16)
    (hstart : ∀ place, start = some place → place.1 < 10 ^ 16) (hlimit : query.maximum ≤ 100)
    (hpositive : 1 ≤ query.maximum) :
    DynamoAgentsStore.query options owner collection query (start.map startKey) d =
      .ok (SqliteAgentsStore.select owner collection query start s) := by
  rw [DynamoAgentsStore.query, min_eq_left hlimit, if_neg (by omega)]
  dsimp only
  rw [fetch_eq _ (by omega), SqliteAgentsStore.select, ← sorted_eq h hbound hstart,
    ← List.map_take, List.map_map]
  rfl

theorem query_of_zero {query : AgentListParams} {key : Option String} (hzero : query.maximum = 0) :
    DynamoAgentsStore.query options owner collection query key d =
      .error (.api (.invalid "limit must be a positive integer" "limit")) := by
  rw [DynamoAgentsStore.query, hzero]
  rfl

/-- A listing from a place that both stores know. -/
theorem sameAnswer_select {query : AgentListParams} (h : Mirrors options created s d)
    (hbound : ∀ key, created key < 10 ^ 16)
    (hstart : ∀ place, start = some place → place.1 < 10 ^ 16) (hlimit : query.maximum ≤ 100) :
    SameAnswer (.ok (.page (SqliteAgentsStore.select owner collection query start s)))
      ((DynamoAgentsStore.query options owner collection query (start.map startKey) d).map .page) ↔
        1 ≤ query.maximum := by
  by_cases hpositive : 1 ≤ query.maximum
  · rw [query_eq_select h hbound hstart hlimit hpositive]
    exact iff_of_true rfl hpositive
  · rw [query_of_zero (by omega)]
    exact iff_of_false (fun h ↦ h) hpositive

theorem agrees_list {query : AgentListParams} (h : Mirrors options created s d)
    (hbound : ∀ key, created key < 10 ^ 16) (hlimit : query.maximum ≤ 100) :
    SameAnswer (SqliteAgentsStore.step s (.list owner collection query)).1
        (step options d (.list owner collection query)).1 ↔
      Comparable (standing options d) (.list owner collection query : StoreOp V) := by
  rw [SqliteAgentsStore.step, step, SqliteAgentsStore.list, list, Comparable]
  cases query.cursor? with
  | none =>
    have hplace : ∀ place, (none : Option (ℕ × String)) = some place → place.1 < 10 ^ 16 := by
      intro place hplace
      cases hplace
    exact sameAnswer_select h hbound hplace hlimit
  | some after =>
    have hget : SqliteAgentsStore.get s (owner, collection, after) =
        get options d (owner, collection, after) := by
      rw [SqliteAgentsStore.get, h.rows, Option.map_map]
      exact congrFun Option.map_id _
    dsimp only
    rw [hget]
    cases hroot : d.get? (rootKey options (owner, collection, after)) with
    | none =>
      have hunknown : standing options d (owner, collection, after) = .unknown := by
        rw [standing, hroot]
      have hnone : get options d (owner, collection, after) = none := by
        rw [get, hroot]
      rw [hnone, hunknown]
      exact iff_of_true rfl (.inl rfl)
    | some item =>
      have hstanding : standing options d (owner, collection, after) =
          if item.deleted then .deleted else .live item.index.revision := by
        rw [standing, hroot]
      rw [get_of_root hroot, hstanding]
      cases hdeleted : item.deleted with
      | true =>
        -- The local store has forgotten the cursor, and the other one finds no fault with it.
        refine iff_of_false (fun hsame ↦ ?_) (by simp)
        by_cases hpositive : 1 ≤ query.maximum
        · have hplace : ∀ place, some (item.index.createdAt, item.index.id) = some place →
              place.1 < 10 ^ 16 := by
            rintro place hplace
            cases hplace
            exact (h.roots _ item hroot).2.1 ▸ hbound _
          have hquery : DynamoAgentsStore.query options owner collection query
              (some (orderKey item.index.createdAt item.index.id)) d = _ :=
            query_eq_select h hbound hplace hlimit hpositive
          simp only [hquery] at hsame
          exact hsame
        · simp only [query_of_zero (by omega : query.maximum = 0)] at hsame
          simp [SameAnswer, Except.map, AgentsStoreError.kind, AgentsApiError.invalid,
            throw, throwThe, MonadExceptOf.throw] at hsame
      | false =>
        have hplace : ∀ place, some (item.index.createdAt, item.index.id) = some place →
            place.1 < 10 ^ 16 := by
          rintro place hplace
          cases hplace
          exact (h.roots _ item hroot).2.1 ▸ hbound _
        refine (sameAnswer_select h hbound hplace hlimit).trans ?_
        simp

end DynamoAgentsStore

end RatThings
