import Mathlib.Data.Prod.Lex
import Mathlib.Data.String.Basic
import RatThings.Agents.Errors
import RatThings.Library.Listing
import RatThings.Library.OrderedMap

/-!
# The local store

`AgentsStore` is the port through which the services keep their resources. The local implementation
has one row for each resource, in a table whose primary key is the owner, the collection and the id;
a transaction checks every revision it names before it writes anything.

Rows are encrypted, and resources are kept as JSON: neither is modelled, so a row holds the resource
that was written.
-/

namespace RatThings

open Concurrent

/-! ## The port -/

variable {V : Type}

/-- A resource with its storage metadata. -/
structure AgentResource (V : Type) where
  id : String
  ownerId : String
  collection : String
  createdAt : ℕ
  revision : ℕ
  expiresAt : Option ℕ
  value : V
deriving DecidableEq, Repr

/-- Owner, collection and id. -/
abbrev ResourceKey : Type := String × String × String

def AgentResource.key (resource : AgentResource V) : ResourceKey :=
  (resource.ownerId, resource.collection, resource.id)

/-- A write that names the revision it replaces; `0` creates. -/
structure ResourceWrite (V : Type) where
  resource : AgentResource V
  expectedRevision : ℕ
deriving DecidableEq, Repr

structure AgentListParams where
  limit : Option ℕ
  ascending : Bool
  after : Option String
deriving DecidableEq, Repr

/-- The cursor, if there is one: the empty string is none. -/
def AgentListParams.cursor? (query : AgentListParams) : Option String :=
  query.after.filter (· ≠ "")

def AgentListParams.maximum (query : AgentListParams) : ℕ := query.limit.getD 20

structure ListPage (V : Type) where
  data : List (AgentResource V)
  hasMore : Bool
deriving DecidableEq, Repr

inductive AgentsStoreError : Type
  /-- `AgentsResourceConflictError`: a rejected storage write. -/
  | resourceConflict
  | api (error : AgentsApiError)
  | error (message : String)
deriving DecidableEq, Repr

/-- What callers distinguish by status and code. -/
inductive ErrorKind : Type
  | conflict
  | invalidRequest (param : Option String)
  | failure
deriving DecidableEq, Repr

def AgentsStoreError.kind : AgentsStoreError → ErrorKind
  | .resourceConflict => .conflict
  | .api e =>
    if e.code = some "conflict" then .conflict
    else if e.code = some "invalid_request" then .invalidRequest e.param
    else .failure
  | .error _ => .failure

/-- A page with one entry more than it shows. -/
def ListPage.ofEntries (maximum : ℕ) (entries : List (AgentResource V)) : ListPage V :=
  ⟨entries.take maximum, decide (maximum < entries.length)⟩

/-! ## The table -/

structure SqlRow (V : Type) where
  created : ℕ
  revision : ℕ
  payload : AgentResource V
deriving DecidableEq, Repr

/-- The table `resources`. -/
abbrev SqliteTable (V : Type) : Type := OrderedMap ResourceKey (SqlRow V)

namespace SqliteAgentsStore

def get (table : SqliteTable V) (key : ResourceKey) : Option (AgentResource V) :=
  (table.get? key).map (·.payload)

/-- `ORDER BY created, id`. -/
def order (entry : ResourceKey × SqlRow V) : ℕ ×ₗ String := toLex (entry.2.created, entry.1.2.2)

/-- The rows that a listing shows after a place in it. -/
def rowsFrom (ownerId collection : String) (ascending : Bool) (start : Option (ℕ × String))
    (table : SqliteTable V) : List (ResourceKey × SqlRow V) :=
  table.entries.filter fun entry ↦ entry.1.1 = ownerId ∧ entry.1.2.1 = collection ∧
    ∀ place, start = some place → Beyond ascending (toLex place) (order entry)

def select (ownerId collection : String) (query : AgentListParams) (start : Option (ℕ × String))
    (table : SqliteTable V) : ListPage V :=
  let rows := sortBy query.ascending order (rowsFrom ownerId collection query.ascending start table)
  .ofEntries query.maximum ((rows.take (query.maximum + 1)).map (·.2.payload))

def list (table : SqliteTable V) (ownerId collection : String) (query : AgentListParams) :
    Except AgentsStoreError (ListPage V) :=
  match query.cursor? with
  | none => pure (select ownerId collection query none table)
  | some after =>
    match get table (ownerId, collection, after) with
    | none => throw (.api (.invalid "Invalid pagination cursor." "after"))
    | some resource =>
      pure (select ownerId collection query (some (resource.createdAt, resource.id)) table)

/-- The revision of the resource, which is `0` where there is none, is the one that is named. -/
def expect (table : SqliteTable V) (resource : AgentResource V) (revision : ℕ) :
    Except AgentsStoreError Unit :=
  if ((table.get? resource.key).map (·.revision)).getD 0 ≠ revision then
    throw (.api ⟨409, "Resource changed concurrently.", some "conflict", none⟩)
  else pure ()

def validateWrites (table : SqliteTable V) :
    List ResourceKey → List (ResourceWrite V) → Except AgentsStoreError Unit
  | _, [] => pure ()
  | identities, w :: writes =>
    if w.resource.key ∈ identities ∨ w.resource.revision ≠ w.expectedRevision + 1 then
      throw (.error "Invalid local transaction.")
    else do
      expect table w.resource w.expectedRevision
      validateWrites table (w.resource.key :: identities) writes

def write (table : SqliteTable V) (resource : AgentResource V) : SqliteTable V :=
  table.set resource.key ⟨resource.createdAt, resource.revision, resource⟩

def commit (table : SqliteTable V) (writes : List (ResourceWrite V)) :
    Except AgentsStoreError (SqliteTable V) := do
  validateWrites table [] writes
  pure (writes.foldl (fun table w ↦ write table w.resource) table)

def put (table : SqliteTable V) (resource : AgentResource V) (expectedRevision : ℕ) :
    Except AgentsStoreError (SqliteTable V) :=
  commit table [⟨resource, expectedRevision⟩]

def delete (table : SqliteTable V) (resource : AgentResource V) (writes : List (ResourceWrite V)) :
    Except AgentsStoreError (SqliteTable V) := do
  expect table resource resource.revision
  validateWrites table [] writes
  pure ((writes.foldl (fun table w ↦ write table w.resource) table).erase resource.key)

end SqliteAgentsStore

end RatThings
