import RatThings.Stores.Dynamo

/-!
# Operations on a store

Both stores keep resources under compare-and-swap. They are run on the same operations, and compared
by what they answer. They agree on everything but a few operations (`Comparable`), for which the
local store forgets what the other one remembers, or checks in another order what the other checks
at once.

`Comparable` is stated from what is known of each resource before the operation: its revision, and
whether it was deleted. So it is a condition on the operation and the state, and says nothing of how
either store answers.
-/

namespace RatThings

open Concurrent

variable {V : Type}

/-! ## Operations -/

inductive StoreOp (V : Type) : Type
  | get (key : ResourceKey)
  | list (ownerId collection : String) (query : AgentListParams)
  | put (resource : AgentResource V) (expectedRevision : ℕ)
  | commit (writes : List (ResourceWrite V))
  | delete (resource : AgentResource V) (writes : List (ResourceWrite V))
deriving DecidableEq, Repr

inductive StoreAnswer (V : Type) : Type
  | resource (found : Option (AgentResource V))
  | page (page : ListPage V)
  | done
deriving DecidableEq, Repr

/-- A transaction leaves everything as it was, if it is refused. -/
def settle {T : Type} (table : T) :
    Except AgentsStoreError T → Except AgentsStoreError (StoreAnswer V) × T
  | .ok table' => (.ok .done, table')
  | .error e => (.error e, table)

def SqliteAgentsStore.step (table : SqliteTable V) :
    StoreOp V → Except AgentsStoreError (StoreAnswer V) × SqliteTable V
  | .get key => (.ok (.resource (get table key)), table)
  | .list ownerId collection query => ((list table ownerId collection query).map .page, table)
  | .put resource expectedRevision => settle table (put table resource expectedRevision)
  | .commit writes => settle table (commit table writes)
  | .delete resource writes => settle table (delete table resource writes)

def DynamoAgentsStore.step (options : Options) (table : DynamoTable V) :
    StoreOp V → Except AgentsStoreError (StoreAnswer V) × DynamoTable V
  | .get key => (.ok (.resource (get options table key)), table)
  | .list ownerId collection query =>
    ((list options table ownerId collection query).map .page, table)
  | .put resource expectedRevision => settle table (put options table resource expectedRevision)
  | .commit writes => settle table (commit options table writes)
  | .delete resource writes => settle table (delete options table resource writes)

def SqliteAgentsStore.after (ops : List (StoreOp V)) : SqliteTable V :=
  ops.foldl (fun table op ↦ (step table op).2) .empty

def DynamoAgentsStore.after (options : Options) (ops : List (StoreOp V)) : DynamoTable V :=
  ops.foldl (fun table op ↦ (step options table op).2) .empty

/-- The same value, or an error that callers do not tell apart. -/
def SameAnswer : Except AgentsStoreError (StoreAnswer V) →
    Except AgentsStoreError (StoreAnswer V) → Prop
  | .ok a, .ok b => a = b
  | .error e, .error e' => e.kind = e'.kind
  | _, _ => False

/-- The resources that an operation carries. -/
def StoreOp.resources : StoreOp V → List (AgentResource V)
  | .get _ => []
  | .list _ _ _ => []
  | .put resource _ => [resource]
  | .commit writes => writes.map (·.resource)
  | .delete resource writes => resource :: writes.map (·.resource)

/-- Each resource keeps its time of creation, and requests are of the size that is allowed. -/
structure StoreOp.Regular (created : ResourceKey → ℕ) (op : StoreOp V) : Prop where
  created : ∀ resource ∈ op.resources, resource.createdAt = created resource.key
  limit : ∀ ownerId collection query, op = .list ownerId collection query → query.maximum ≤ 100
  size : ∀ writes, op = .commit writes → writes.length ≤ 50

/-! ## What is known of a resource -/

inductive Standing : Type
  | unknown
  | live (revision : ℕ)
  | deleted
deriving DecidableEq, Repr

def DynamoAgentsStore.standing (options : Options) (table : DynamoTable V) (key : ResourceKey) :
    Standing :=
  match table.get? (rootKey options key) with
  | none => .unknown
  | some item => if item.deleted then .deleted else .live item.index.revision

def Standing.revision : Standing → ℕ
  | .live revision => revision
  | _ => 0

section Condition

variable (standing : ResourceKey → Standing)

/-- The write names the revision that the resource has. -/
def Current (w : ResourceWrite V) : Prop :=
  (standing w.resource.key).revision = w.expectedRevision

/-- A write that names another revision than the one before its own, or a resource that was named
already. -/
def Malformed (identities : List ResourceKey) (w : ResourceWrite V) : Prop :=
  w.resource.key ∈ identities ∨ w.resource.revision ≠ w.expectedRevision + 1

/-- There is a malformed write, and those before it name current revisions. -/
def PlainlyMalformed : List ResourceKey → List (ResourceWrite V) → Prop
  | _, [] => False
  | identities, w :: writes => Malformed identities w ∨
    Current standing w ∧ PlainlyMalformed (w.resource.key :: identities) writes

/-- No write is malformed. -/
def WellFormed (identities : List ResourceKey) : List (ResourceWrite V) → Prop
  | [] => True
  | w :: writes => ¬ Malformed identities w ∧ WellFormed (w.resource.key :: identities) writes

/-- No write creates a resource that was deleted before. -/
def NoRevival (writes : List (ResourceWrite V)) : Prop :=
  ∀ w ∈ writes, w.expectedRevision = 0 → standing w.resource.key ≠ .deleted

/-- The operations on which the stores agree. -/
def Comparable : StoreOp V → Prop
  | .get _ => True
  | .list ownerId collection query =>
    match query.cursor? with
    | none => 1 ≤ query.maximum
    | some after => standing (ownerId, collection, after) = .unknown ∨
      standing (ownerId, collection, after) ≠ .deleted ∧ 1 ≤ query.maximum
  | .put resource expectedRevision =>
    PlainlyMalformed standing [] [⟨resource, expectedRevision⟩] ∨
      WellFormed [] [⟨resource, expectedRevision⟩] ∧
        (¬ Current standing ⟨resource, expectedRevision⟩ ∨
          NoRevival standing [⟨resource, expectedRevision⟩])
  | .commit writes =>
    PlainlyMalformed standing [] writes ∨
      WellFormed [] writes ∧ ((∃ w ∈ writes, ¬ Current standing w) ∨ NoRevival standing writes)
  | .delete resource writes =>
    Current standing ⟨resource, resource.revision⟩ ∧ PlainlyMalformed standing [] writes ∨
      writes.length ≤ 49 ∧ WellFormed [resource.key] writes ∧
        ((¬ Current standing ⟨resource, resource.revision⟩ ∨ ∃ w ∈ writes, ¬ Current standing w) ∨
          resource.revision ≠ 0 ∧ NoRevival standing writes)

variable {standing}

instance (w : ResourceWrite V) : Decidable (Current standing w) :=
  inferInstanceAs (Decidable ((standing w.resource.key).revision = w.expectedRevision))

instance (identities : List ResourceKey) (w : ResourceWrite V) :
    Decidable (Malformed identities w) :=
  inferInstanceAs (Decidable (_ ∨ _))

instance PlainlyMalformed.decidable : ∀ (identities : List ResourceKey)
    (writes : List (ResourceWrite V)), Decidable (PlainlyMalformed standing identities writes)
  | _, [] => .isFalse id
  | identities, w :: writes =>
    have := decidable (w.resource.key :: identities) writes
    inferInstanceAs (Decidable (Malformed identities w ∨
      Current standing w ∧ PlainlyMalformed standing (w.resource.key :: identities) writes))

instance WellFormed.decidable : ∀ (identities : List ResourceKey)
    (writes : List (ResourceWrite V)), Decidable (WellFormed identities writes)
  | _, [] => .isTrue trivial
  | identities, w :: writes =>
    have := decidable (w.resource.key :: identities) writes
    inferInstanceAs (Decidable (¬ Malformed identities w ∧
      WellFormed (w.resource.key :: identities) writes))

instance (writes : List (ResourceWrite V)) : Decidable (NoRevival standing writes) :=
  inferInstanceAs (Decidable (∀ w ∈ writes, w.expectedRevision = 0 →
    standing w.resource.key ≠ .deleted))

instance : ∀ op : StoreOp V, Decidable (Comparable standing op)
  | .get _ => .isTrue trivial
  | .list ownerId collection query =>
    match h : query.cursor? with
    | none => decidable_of_iff (1 ≤ query.maximum) (by rw [Comparable, h])
    | some after => decidable_of_iff (standing (ownerId, collection, after) = .unknown ∨
        standing (ownerId, collection, after) ≠ .deleted ∧ 1 ≤ query.maximum)
        (by rw [Comparable, h])
  | .put _ _ => inferInstanceAs (Decidable (_ ∨ _ ∧ (¬ _ ∨ _)))
  | .commit _ => inferInstanceAs (Decidable (_ ∨ _ ∧ (_ ∨ _)))
  | .delete _ _ => inferInstanceAs (Decidable (_ ∧ _ ∨ _ ∧ _ ∧ (_ ∨ _)))

end Condition

end RatThings
