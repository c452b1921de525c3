import RatThings.Stores.Sqlite

/-!
# The DynamoDB store

A resource has two items: its root, under its own partition, and an entry in the list of its
collection, whose sort key begins with the time of creation. A deletion takes the entry away and
marks the root, which stays. Values are in an object store, under the digest of their content; an
item holds a reference to one, here the value itself.

## The database

A transaction that names an item twice is invalid, and nothing of it is tried. Otherwise all of its
conditions hold and it takes effect, or it is cancelled. A query returns the items of a partition in
the order of their sort keys, as many as fit into a page.
-/

namespace RatThings

open Concurrent

variable {V : Type}

structure ResourceIndex (V : Type) where
  id : String
  ownerId : String
  collection : String
  createdAt : ℕ
  revision : ℕ
  expiresAt : Option ℕ
  reference : V
deriving DecidableEq, Repr

structure DynamoItem (V : Type) where
  index : ResourceIndex V
  deleted : Bool
deriving DecidableEq, Repr

/-- Partition and sort key. -/
abbrev ItemKey : Type := String × String

abbrev DynamoTable (V : Type) : Type := OrderedMap ItemKey (DynamoItem V)

/-- One operation of a transaction: what it requires of the item that is there, and what it makes of
it. -/
structure TransactItem (V : Type) where
  key : ItemKey
  condition : Option (DynamoItem V) → Bool
  effect : Option (DynamoItem V) → Option (DynamoItem V)

def TransactItem.apply (table : DynamoTable V) (item : TransactItem V) : DynamoTable V :=
  match item.effect (table.get? item.key) with
  | some new => table.set item.key new
  | none => table.erase item.key

namespace DynamoAgentsStore

/-- What the store is configured with: the digest of a name, and how many items fit into a page. -/
structure Options where
  hash : String → String
  fit : ℕ → ℕ

variable (options : Options)

/-! ## Keys -/

def listScope (ownerId collection : String) : String :=
  "list:" ++ options.hash ownerId ++ ":" ++ options.hash collection

def rootKey (key : ResourceKey) : ItemKey :=
  ("resource:" ++ options.hash key.1 ++ ":" ++ options.hash key.2.1 ++ ":" ++ key.2.2, "root")

/-- The number with zeros before it, to sixteen digits. -/
def padStart (n : ℕ) : String := String.ofList (List.leftpad 16 '0' (Nat.toDigits 10 n))

def orderKey (createdAt : ℕ) (id : String) : String := padStart createdAt ++ ":" ++ id

def listKey (resource : AgentResource V) : ItemKey :=
  (listScope options resource.ownerId resource.collection, orderKey resource.createdAt resource.id)

/-! ## Transactions -/

/-- All or nothing. Only a condition that does not hold is reported as a conflict. -/
def transact (table : DynamoTable V) (items : List (TransactItem V)) :
    Except AgentsStoreError (DynamoTable V) :=
  if ¬ (items.map (·.key)).Nodup then
    throw (.error "Transaction request cannot include multiple operations on one item")
  else if ∃ item ∈ items, item.condition (table.get? item.key) = false then throw .resourceConflict
  else pure (items.foldl TransactItem.apply table)

def indexOf (resource : AgentResource V) : ResourceIndex V where
  id := resource.id
  ownerId := resource.ownerId
  collection := resource.collection
  createdAt := resource.createdAt
  revision := resource.revision
  -- An expiry of `0` is not stored.
  expiresAt := resource.expiresAt.filter (· ≠ 0)
  reference := resource.value

def hydrate (index : ResourceIndex V) : AgentResource V where
  id := index.id
  ownerId := index.ownerId
  collection := index.collection
  createdAt := index.createdAt
  revision := index.revision
  expiresAt := index.expiresAt
  value := index.reference

/-- There is an item with this revision, and it is not marked as deleted. -/
def hasRevision (revision : ℕ) : Option (DynamoItem V) → Bool
  | some item => item.index.revision = revision && !item.deleted
  | none => false

def putRoot (resource : AgentResource V) (expectedRevision : ℕ) : TransactItem V where
  key := rootKey options resource.key
  condition item := if expectedRevision = 0 then item.isNone else hasRevision expectedRevision item
  effect _ := some ⟨indexOf resource, false⟩

def putEntry (resource : AgentResource V) : TransactItem V where
  key := listKey options resource
  condition _ := true
  effect _ := some ⟨indexOf resource, false⟩

def markRoot (resource : AgentResource V) : TransactItem V where
  key := rootKey options resource.key
  condition := hasRevision resource.revision
  effect item := item.map fun item ↦
    ⟨{ item.index with revision := resource.revision + 1 }, true⟩

def dropEntry (resource : AgentResource V) : TransactItem V where
  key := listKey options resource
  condition _ := true
  effect _ := none

def writeItems (writes : List (ResourceWrite V)) :
    Except AgentsStoreError (List (TransactItem V)) :=
  if writes.length > 50 then throw (.error "Agents storage transaction exceeds its item limit")
  else if ∃ w ∈ writes, w.resource.revision ≠ w.expectedRevision + 1 then
    throw (.error "Invalid resource revision")
  else pure (writes.flatMap fun w ↦
    [putRoot options w.resource w.expectedRevision, putEntry options w.resource])

/-! ## The port -/

def get (table : DynamoTable V) (key : ResourceKey) : Option (AgentResource V) :=
  match table.get? (rootKey options key) with
  | some ⟨index, false⟩ => some (hydrate index)
  | _ => none

/-- The items of a list that a query returns after the key it starts from. -/
def itemsFrom (ownerId collection : String) (ascending : Bool) (start : Option String)
    (table : DynamoTable V) : List (ItemKey × DynamoItem V) :=
  table.entries.filter fun entry ↦ entry.1.1 = listScope options ownerId collection ∧
    ∀ key, start = some key → Beyond ascending key entry.1.2

def query (ownerId collection : String) (query : AgentListParams) (start : Option String)
    (table : DynamoTable V) : Except AgentsStoreError (ListPage V) :=
  let maximum := min query.maximum 100
  if maximum < 1 then throw (.api (.invalid "limit must be a positive integer" "limit"))
  else
    let items := sortBy query.ascending (fun entry ↦ entry.1.2)
      (itemsFrom options ownerId collection query.ascending start table)
    -- One more entry, so that there is another page only if there is another resource.
    let data := fetch options.fit (maximum + 1) (items.length + 1) [] items
    pure (.ofEntries maximum (data.map fun entry ↦ hydrate entry.2.index))

def list (table : DynamoTable V) (ownerId collection : String) (query : AgentListParams) :
    Except AgentsStoreError (ListPage V) :=
  match query.cursor? with
  | none => DynamoAgentsStore.query options ownerId collection query none table
  | some after =>
    -- A cursor that has been deleted still says where to go on.
    match table.get? (rootKey options (ownerId, collection, after)) with
    | none => throw (.api (.invalid "Invalid pagination cursor" "after"))
    | some item => DynamoAgentsStore.query options ownerId collection query
        (some (orderKey item.index.createdAt item.index.id)) table

def commit (table : DynamoTable V) (writes : List (ResourceWrite V)) :
    Except AgentsStoreError (DynamoTable V) := do
  if writes = [] then pure table
  else
    let items ← writeItems options writes
    transact table items

def put (table : DynamoTable V) (resource : AgentResource V) (expectedRevision : ℕ) :
    Except AgentsStoreError (DynamoTable V) :=
  commit options table [⟨resource, expectedRevision⟩]

def delete (table : DynamoTable V) (resource : AgentResource V) (writes : List (ResourceWrite V)) :
    Except AgentsStoreError (DynamoTable V) := do
  if writes.length > 49 then throw (.error "Agents storage transaction exceeds its item limit")
  else
    let items ← writeItems options writes
    transact table (items ++ [markRoot options resource, dropEntry options resource])

end DynamoAgentsStore

end RatThings
