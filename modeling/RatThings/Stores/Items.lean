import RatThings.Library.Padding
import RatThings.Library.Separator
import RatThings.Stores.Dynamo

/-!
# The items of the DynamoDB store

A resource is kept twice, as a root and as an entry of its list, and nothing in the database ties
the two together: it is the store that writes both in one transaction. The invariant is that the
entries of a list are the roots of its collection that are not marked as deleted, each under the
sort key that its time of creation gives it (`Consistent`). A write and a deletion keep it so.

What the argument rests on is that keys tell resources apart. A root key is two digests and the id,
separated by colons; digests contain none, so that the key can be read back, and the id may contain
any. An entry's sort key pads the time of creation to sixteen digits, so that strings are ordered as
numbers are, up to `10 ^ 16`.

A resource keeps its time of creation as long as it is written: `created` names it. Were it written
with another one, its first entry would stay in the list.
-/

namespace RatThings

open Concurrent

variable {V : Type}

/-! ## Keys -/

/-- Digests tell names apart, and have no colon in them. -/
structure Digests (hash : String → String) : Prop where
  injective : Function.Injective hash
  noColon : ∀ s, ':' ∉ (hash s).toList

namespace DynamoAgentsStore

variable {options : Options}

theorem rootKey_injective (hhash : Digests options.hash) :
    Function.Injective (rootKey options) := by
  rintro ⟨owner, collection, id⟩ ⟨owner', collection', id'⟩ h
  have hlist := congrArg String.toList (Prod.mk.inj h).1
  simp only [String.toList_append, List.append_assoc] at hlist
  have hrest := List.append_cancel_left hlist
  obtain ⟨howner, hrest⟩ := eq_of_append_separator hrest (hhash.noColon _) (hhash.noColon _)
  obtain ⟨hcollection, hid⟩ := eq_of_append_separator hrest (hhash.noColon _) (hhash.noColon _)
  rw [hhash.injective (String.toList_inj.mp howner),
    hhash.injective (String.toList_inj.mp hcollection), String.toList_inj.mp hid]

theorem listScope_injective (hhash : Digests options.hash)
    {owner collection owner' collection' : String}
    (h : listScope options owner collection = listScope options owner' collection') :
    owner = owner' ∧ collection = collection' := by
  have hlist := congrArg String.toList h
  simp only [listScope, String.toList_append, List.append_assoc] at hlist
  have hrest := List.append_cancel_left hlist
  obtain ⟨howner, hcollection⟩ := eq_of_append_separator hrest (hhash.noColon _) (hhash.noColon _)
  exact ⟨hhash.injective (String.toList_inj.mp howner),
    hhash.injective (String.toList_inj.mp hcollection)⟩

theorem rootKey_ne_list {key : ResourceKey} {owner collection sort : String} :
    rootKey options key ≠ (listScope options owner collection, sort) := by
  intro h
  have hlist := congrArg String.toList (Prod.mk.inj h).1
  simp [listScope, String.toList_append] at hlist

theorem rootKey_ne_listKey {key : ResourceKey} {resource : AgentResource V} :
    rootKey options key ≠ listKey options resource := rootKey_ne_list

/-- Sort keys are ordered by time of creation, and by id at one time. -/
theorem orderKey_lt {m n : ℕ} {id id' : String} (hm : m < 10 ^ 16) (hn : n < 10 ^ 16) :
    orderKey m id < orderKey n id' ↔ toLex (m, id) < toLex (n, id') := by
  have hlist : ∀ (k : ℕ) (s : String), k < 10 ^ 16 →
      (orderKey k s).toList = decimal 16 k ++ ':' :: s.toList := by
    intro k s hk
    rw [← leftpad_toDigits hk (by decide)]
    simp [orderKey, padStart]
  have hid : id < id' ↔ id.toList < id'.toList := String.lt_iff_toList_lt
  rw [String.lt_iff_toList_lt, hlist m id hm, hlist n id' hn,
    append_lt_append_iff (by simp), decimal_lt_decimal hm hn, Prod.Lex.toLex_lt_toLex]
  refine or_congr_right ⟨?_, ?_⟩
  · rintro ⟨heq, hlt⟩
    exact ⟨decimal_inj hm hn heq, hid.mpr (by simpa [List.cons_lt_cons_iff] using hlt)⟩
  · rintro ⟨rfl, hlt⟩
    exact ⟨rfl, by simpa [List.cons_lt_cons_iff] using hid.mp hlt⟩

theorem orderKey_inj {m n : ℕ} {id id' : String} (hm : m < 10 ^ 16) (hn : n < 10 ^ 16)
    (h : orderKey m id = orderKey n id') : m = n ∧ id = id' := by
  rcases lt_trichotomy (toLex (m, id)) (toLex (n, id')) with hlt | heq | hlt
  · exact absurd ((orderKey_lt hm hn).mpr hlt) (h ▸ lt_irrefl _)
  · exact Prod.mk.inj heq
  · exact absurd ((orderKey_lt hn hm).mpr hlt) (h ▸ lt_irrefl _)

end DynamoAgentsStore

/-! ## A digest

An injective digest without colons, so that a store can be run. -/

/-- Colons are written as something else. -/
def escape : List Char → List Char
  | [] => []
  | c :: l => if c = ':' then '_' :: 'c' :: escape l
    else if c = '_' then '_' :: '_' :: escape l else c :: escape l

theorem escape_injective : Function.Injective escape := by
  intro l l' h
  induction l generalizing l' with
  | nil => cases l' <;> grind [escape]
  | cons c l ih => cases l' <;> grind [escape]

theorem colon_notMem_escape (l : List Char) : ':' ∉ escape l := by
  induction l with
  | nil => exact List.not_mem_nil
  | cons c l ih => grind [escape]

def sampleStore : DynamoAgentsStore.Options where
  hash s := String.ofList (escape s.toList)
  fit n := n

theorem digests_sample : Digests sampleStore.hash where
  injective s s' h := String.toList_inj.mp (escape_injective (String.ofList_injective h))
  noColon s := by
    rw [sampleStore, String.toList_ofList]
    exact colon_notMem_escape _

/-! ## The invariant

The roots say what there is, and which time of creation it has; the entries of a list repeat them.
A root that is marked as deleted has no entry, but is still there. -/

namespace DynamoAgentsStore

/-- The entries of the lists are the roots that are not marked as deleted. -/
structure Consistent (options : Options) (created : ResourceKey → ℕ) (d : DynamoTable V) :
    Prop where
  roots : ∀ key item, d.get? (rootKey options key) = some item →
    (hydrate item.index).key = key ∧ item.index.createdAt = created key ∧ 0 < item.index.revision
  entries : ∀ owner collection sort item,
    d.get? (listScope options owner collection, sort) = some item ↔
      ∃ id, d.get? (rootKey options (owner, collection, id)) = some item ∧ item.deleted = false ∧
        sort = orderKey (created (owner, collection, id)) id

variable {options : Options} {created : ResourceKey → ℕ} {d : DynamoTable V}
  {resource : AgentResource V}

theorem consistent_empty : Consistent options created (OrderedMap.empty : DynamoTable V) := by
  refine ⟨fun key item h ↦ (nomatch h), fun owner collection sort item ↦ ?_⟩
  constructor
  · intro h
    cases h
  · rintro ⟨id, h, -⟩
    cases h

theorem get_of_root {key : ResourceKey} {item : DynamoItem V}
    (h : d.get? (rootKey options key) = some item) :
    get options d key = if item.deleted then none else some (hydrate item.index) := by
  obtain ⟨index, deleted⟩ := item
  rw [get, h]
  cases deleted <;> rfl

theorem get_eq_some {key : ResourceKey} {resource : AgentResource V} :
    get options d key = some resource ↔ ∃ item, d.get? (rootKey options key) = some item ∧
      item.deleted = false ∧ hydrate item.index = resource := by
  rw [get]
  rcases hroot : d.get? (rootKey options key) with _ | ⟨index, deleted⟩
  · simp
  · cases deleted <;> simp

/-- The entry of another resource is another entry. -/
theorem listKey_ne (hhash : Digests options.hash) (hbound : ∀ key, created key < 10 ^ 16)
    (hcreated : resource.createdAt = created resource.key) {owner collection id : String}
    (hne : (owner, collection, id) ≠ resource.key) :
    (listScope options owner collection, orderKey (created (owner, collection, id)) id) ≠
      listKey options resource := by
  intro h
  obtain ⟨hscope, hsort⟩ := Prod.mk.inj h
  obtain ⟨rfl, rfl⟩ := listScope_injective hhash hscope
  obtain ⟨-, rfl⟩ := orderKey_inj (hbound _) (hcreated ▸ hbound _) hsort
  exact hne rfl

theorem listKey_self (hcreated : resource.createdAt = created resource.key)
    {owner collection id : String} (heq : (owner, collection, id) = resource.key) :
    (listScope options owner collection, orderKey (created (owner, collection, id)) id) =
      listKey options resource := by
  rw [heq, ← hcreated]
  cases heq
  rfl

/-! ## Writes

A write sets the root and the entry. The entry of another resource has another key, so that only one
root and one entry change. -/

/-- What a write makes of the items. -/
def written (options : Options) (d : DynamoTable V) (resource : AgentResource V) : DynamoTable V :=
  (d.set (rootKey options resource.key) ⟨indexOf resource, false⟩).set (listKey options resource)
    ⟨indexOf resource, false⟩

theorem root_written (hhash : Digests options.hash) (key : ResourceKey) :
    (written options d resource).get? (rootKey options key) =
      if key = resource.key then some ⟨indexOf resource, false⟩
      else d.get? (rootKey options key) := by
  rw [written, OrderedMap.get?_set_of_ne _ rootKey_ne_listKey]
  split
  · next hkey => rw [hkey, OrderedMap.get?_set_self]
  · next hkey =>
    exact OrderedMap.get?_set_of_ne _ (fun h ↦ hkey (rootKey_injective hhash h)) _

theorem entry_written (owner collection sort : String) :
    (written options d resource).get? (listScope options owner collection, sort) =
      if (listScope options owner collection, sort) = listKey options resource then
        some ⟨indexOf resource, false⟩
      else d.get? (listScope options owner collection, sort) := by
  rw [written]
  split
  · next hkey => rw [hkey, OrderedMap.get?_set_self]
  · next hkey =>
    rw [OrderedMap.get?_set_of_ne _ hkey, OrderedMap.get?_set_of_ne _ rootKey_ne_list.symm]

/-- **A write keeps roots and entries together.** -/
theorem consistent_write (hhash : Digests options.hash) (hbound : ∀ key, created key < 10 ^ 16)
    (h : Consistent options created d) (hcreated : resource.createdAt = created resource.key)
    (hrevision : 0 < resource.revision) :
    Consistent options created (written options d resource) := by
  refine ⟨fun key item hitem ↦ ?_, fun owner collection sort item ↦ ?_⟩
  · rw [root_written hhash] at hitem
    split at hitem
    · next hkey =>
      cases hitem
      exact ⟨hkey.symm, hkey ▸ hcreated, hrevision⟩
    · exact h.roots key item hitem
  · rw [entry_written]
    constructor
    · intro hitem
      split at hitem
      · next hkey =>
        cases hitem
        obtain ⟨hscope, hsort⟩ := Prod.mk.inj hkey
        obtain ⟨rfl, rfl⟩ := listScope_injective hhash hscope
        exact ⟨resource.id, (root_written hhash _).trans (if_pos rfl), rfl,
          hsort.trans (by rw [hcreated]; rfl)⟩
      · next hkey =>
        obtain ⟨id, hroot, hdeleted, rfl⟩ := (h.entries owner collection sort item).mp hitem
        have hne : (owner, collection, id) ≠ resource.key := fun heq ↦
          hkey (listKey_self hcreated heq)
        exact ⟨id, (root_written hhash _).trans ((if_neg hne).trans hroot), hdeleted, rfl⟩
    · rintro ⟨id, hroot, hdeleted, rfl⟩
      rw [root_written hhash] at hroot
      split at hroot
      · next heq => rw [if_pos (listKey_self hcreated heq), hroot]
      · next hne =>
        rw [if_neg (listKey_ne hhash hbound hcreated hne)]
        exact (h.entries owner collection _ item).mpr ⟨id, hroot, hdeleted, rfl⟩

/-! ## Deletions

A deletion marks the root and takes the entry away. -/

/-- What a deletion makes of the items. -/
def dropped (options : Options) (d : DynamoTable V) (resource : AgentResource V)
    (item : DynamoItem V) : DynamoTable V :=
  (d.set (rootKey options resource.key)
    ⟨{ item.index with revision := resource.revision + 1 }, true⟩).erase (listKey options resource)

theorem root_dropped (hhash : Digests options.hash) (item : DynamoItem V) (key : ResourceKey) :
    (dropped options d resource item).get? (rootKey options key) =
      if key = resource.key then some ⟨{ item.index with revision := resource.revision + 1 }, true⟩
      else d.get? (rootKey options key) := by
  rw [dropped, OrderedMap.get?_erase_of_ne _ rootKey_ne_listKey]
  split
  · next hkey => rw [hkey, OrderedMap.get?_set_self]
  · next hkey =>
    exact OrderedMap.get?_set_of_ne _ (fun h ↦ hkey (rootKey_injective hhash h)) _

/-- **A deletion keeps roots and entries together.** -/
theorem consistent_delete (hhash : Digests options.hash) (hbound : ∀ key, created key < 10 ^ 16)
    (h : Consistent options created d) (hcreated : resource.createdAt = created resource.key)
    {item : DynamoItem V} (hitem : d.get? (rootKey options resource.key) = some item) :
    Consistent options created (dropped options d resource item) := by
  obtain ⟨hkey, hcreated', hrevision⟩ := h.roots _ item hitem
  refine ⟨fun key item' hitem' ↦ ?_, fun owner collection sort item' ↦ ?_⟩
  · rw [root_dropped hhash] at hitem'
    split at hitem'
    · next heq =>
      cases hitem'
      exact ⟨hkey.trans heq.symm, hcreated'.trans (by rw [heq]), Nat.succ_pos _⟩
    · exact h.roots key item' hitem'
  · constructor
    · intro hentry
      have hne : (listScope options owner collection, sort) ≠ listKey options resource := by
        intro heq
        rw [dropped, heq, OrderedMap.get?_erase_self] at hentry
        cases hentry
      rw [dropped, OrderedMap.get?_erase_of_ne _ hne,
        OrderedMap.get?_set_of_ne _ rootKey_ne_list.symm] at hentry
      obtain ⟨id, hroot, hdeleted, rfl⟩ := (h.entries owner collection sort item').mp hentry
      have hother : (owner, collection, id) ≠ resource.key := fun heq ↦
        hne (listKey_self hcreated heq)
      exact ⟨id, (root_dropped hhash item _).trans ((if_neg hother).trans hroot), hdeleted, rfl⟩
    · rintro ⟨id, hroot, hdeleted, rfl⟩
      rw [root_dropped hhash] at hroot
      split at hroot
      · cases hroot
        cases hdeleted
      · next hne =>
        rw [dropped, OrderedMap.get?_erase_of_ne _ (listKey_ne hhash hbound hcreated hne),
          OrderedMap.get?_set_of_ne _ rootKey_ne_list.symm]
        exact (h.entries owner collection _ item').mpr ⟨id, hroot, hdeleted, rfl⟩

end DynamoAgentsStore

end RatThings
