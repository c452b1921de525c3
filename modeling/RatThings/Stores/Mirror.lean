import RatThings.Stores.Items

/-!
# Two stores in step

As long as both stores have accepted the same writes, the rows of the local one are the roots of the
other that are not marked as deleted, and those are consistent with the entries of the lists
(`Mirrors`). A write and a deletion keep it so, whatever the stores contain.

The rows say nothing of what has been deleted. This is where the two stores differ for good: the
relation ties a marked root to no row, and a resource that never was to no row either.
-/

namespace RatThings

open Concurrent

variable {V : Type}

/-! ## The relation

The relation is between the tables, and the invariant of the items is a part of it: the services
write roots and entries in one transaction. -/

def AgentResource.row (resource : AgentResource V) : SqlRow V :=
  ⟨resource.createdAt, resource.revision, resource⟩

open DynamoAgentsStore in
structure Mirrors (options : Options) (created : ResourceKey → ℕ) (s : SqliteTable V)
    (d : DynamoTable V) : Prop extends Consistent options created d where
  rows : ∀ key, s.get? key = (get options d key).map (·.row)

namespace DynamoAgentsStore

variable {options : Options} {created : ResourceKey → ℕ} {s : SqliteTable V} {d : DynamoTable V}
  {resource : AgentResource V}

theorem mirrors_empty : Mirrors options created (OrderedMap.empty : SqliteTable V)
    OrderedMap.empty :=
  ⟨consistent_empty, fun _ ↦ rfl⟩

/-- A resource comes back as it was stored, unless it had an expiry of `0`. -/
theorem hydrate_indexOf (h : resource.expiresAt ≠ some 0) :
    hydrate (indexOf resource) = resource := by
  obtain ⟨id, ownerId, collection, createdAt, revision, expiresAt, value⟩ := resource
  cases expiresAt with
  | none => rfl
  | some n =>
    have hn : n ≠ 0 := fun hzero ↦ h (congrArg some hzero)
    simp [hydrate, indexOf, Option.filter, hn]

theorem get_congr {d' : DynamoTable V} {key : ResourceKey}
    (h : d'.get? (rootKey options key) = d.get? (rootKey options key)) :
    get options d' key = get options d key := by
  rw [get, h, get]

/-- Both stores write a resource. -/
theorem mirrors_write (hhash : Digests options.hash) (hbound : ∀ key, created key < 10 ^ 16)
    (h : Mirrors options created s d) (hcreated : resource.createdAt = created resource.key)
    (hrevision : 0 < resource.revision) (hexpires : resource.expiresAt ≠ some 0) :
    Mirrors options created (SqliteAgentsStore.write s resource) (written options d resource) := by
  refine ⟨consistent_write hhash hbound h.toConsistent hcreated hrevision, fun key ↦ ?_⟩
  by_cases hkey : key = resource.key
  · subst hkey
    rw [SqliteAgentsStore.write, OrderedMap.get?_set_self,
      get_of_root ((root_written hhash _).trans (if_pos rfl)), hydrate_indexOf hexpires]
    rfl
  · rw [SqliteAgentsStore.write, OrderedMap.get?_set_of_ne _ hkey,
      get_congr ((root_written hhash key).trans (if_neg hkey))]
    exact h.rows key

/-- Both stores delete a resource. -/
theorem mirrors_delete (hhash : Digests options.hash) (hbound : ∀ key, created key < 10 ^ 16)
    (h : Mirrors options created s d) (hcreated : resource.createdAt = created resource.key)
    {item : DynamoItem V} (hitem : d.get? (rootKey options resource.key) = some item) :
    Mirrors options created (s.erase resource.key) (dropped options d resource item) := by
  refine ⟨consistent_delete hhash hbound h.toConsistent hcreated hitem, fun key ↦ ?_⟩
  by_cases heq : key = resource.key
  · subst heq
    rw [OrderedMap.get?_erase_self, get_of_root ((root_dropped hhash item _).trans (if_pos rfl))]
    rfl
  · rw [OrderedMap.get?_erase_of_ne _ heq,
      get_congr ((root_dropped hhash item key).trans (if_neg heq))]
    exact h.rows key

end DynamoAgentsStore

end RatThings
