import Mathlib.Data.List.Induction
import RatThings.Stores.Items
import RatThings.Stores.Operations

/-!
# Transactions of the DynamoDB store

A commit becomes one transaction of two items for every write, a deletion one of two items more.
DynamoDB rejects a transaction that names an item twice before it looks at any condition; then
either all conditions hold, and all items change, or nothing does.

Since keys tell resources apart, a transaction names an item twice just if it names a resource
twice (`nodup_itemsOf`), and its conditions say of each write that it names the current revision
and creates nothing that was deleted (`conditions_itemsOf`). What an accepted transaction was, and
what it leaves, is said once (`commit_eq_ok`, `delete_eq_ok`). Every invariant follows from there:
here that roots and entries are consistent after every run (`consistent_after`).
-/

namespace RatThings

open Concurrent

variable {V : Type}

/-! ## Well-formed writes -/

theorem wellFormed_iff {identities : List ResourceKey} {writes : List (ResourceWrite V)} :
    WellFormed identities writes ↔ (∀ w ∈ writes, w.resource.key ∉ identities ∧
      w.resource.revision = w.expectedRevision + 1) ∧ (writes.map (·.resource.key)).Nodup := by
  induction writes generalizing identities with
  | nil => simp [WellFormed]
  | cons w writes ih =>
    rw [WellFormed, ih, List.map_cons, List.nodup_cons, List.forall_mem_cons]
    simp only [Malformed, List.mem_cons, not_or, not_not, List.mem_map, not_exists, not_and]
    constructor
    · rintro ⟨hw, hrest, hnodup⟩
      exact ⟨⟨hw, fun w' hw' ↦ ⟨(hrest w' hw').1.2, (hrest w' hw').2⟩⟩,
        fun w' hw' ↦ (hrest w' hw').1.1, hnodup⟩
    · rintro ⟨⟨hw, hrest⟩, hother, hnodup⟩
      exact ⟨hw, fun w' hw' ↦ ⟨⟨hother w' hw', (hrest w' hw').1⟩, (hrest w' hw').2⟩, hnodup⟩

namespace DynamoAgentsStore

variable {options : Options} {created : ResourceKey → ℕ} {d : DynamoTable V}
  {writes : List (ResourceWrite V)}

/-- Items of different resources are different. -/
theorem nodup_itemKeys (hhash : Digests options.hash) (hbound : ∀ key, created key < 10 ^ 16)
    {resources : List (AgentResource V)}
    (hcreated : ∀ resource ∈ resources, resource.createdAt = created resource.key) :
    (resources.flatMap fun r ↦ [rootKey options r.key, listKey options r]).Nodup ↔
      (resources.map (·.key)).Nodup := by
  induction resources with
  | nil => simp
  | cons resource resources ih =>
    obtain ⟨hresource, hresources⟩ := List.forall_mem_cons.mp hcreated
    have hroot : rootKey options resource.key ∈
        (resources.flatMap fun r ↦ [rootKey options r.key, listKey options r]) ↔
          resource.key ∈ resources.map (·.key) := by
      rw [List.mem_flatMap, List.mem_map]
      refine exists_congr fun r ↦ and_congr_right fun _ ↦ ?_
      simp only [List.mem_cons, List.not_mem_nil, or_false, rootKey_ne_listKey]
      exact ⟨fun h ↦ (rootKey_injective hhash h).symm, fun h ↦ by rw [h]⟩
    have hlist : listKey options resource ∈
        (resources.flatMap fun r ↦ [rootKey options r.key, listKey options r]) →
          resource.key ∈ resources.map (·.key) := by
      rw [List.mem_flatMap, List.mem_map]
      rintro ⟨r, hr, hmem⟩
      refine ⟨r, hr, ?_⟩
      by_contra hne
      have hsame : listKey options resource = listKey options r := by
        simpa [rootKey_ne_listKey.symm] using hmem
      have hother : (r.ownerId, r.collection, r.id) ≠ resource.key := hne
      exact listKey_ne hhash hbound hresource hother
        ((listKey_self (hresources r hr) rfl).trans hsame.symm)
    rw [List.flatMap_cons, List.map_cons, List.nodup_cons, ← ih hresources]
    simp only [List.cons_append, List.nil_append, List.nodup_cons, List.mem_cons, hroot,
      rootKey_ne_listKey, false_or]
    exact ⟨fun h ↦ ⟨h.1, h.2.2⟩, fun h ↦ ⟨h.1, fun hmem ↦ h.1 (hlist hmem), h.2⟩⟩

/-- The condition of a write: the revision is the current one, and nothing that was deleted is
created again. -/
theorem condition_putRoot (h : Consistent options created d) (w : ResourceWrite V) :
    (putRoot options w.resource w.expectedRevision).condition
        (d.get? (rootKey options w.resource.key)) = true ↔
      Current (standing options d) w ∧
        (w.expectedRevision = 0 → standing options d w.resource.key ≠ .deleted) := by
  rw [putRoot, Current, standing]
  cases hroot : d.get? (rootKey options w.resource.key) with
  | none =>
    by_cases hzero : w.expectedRevision = 0
    · simp [hzero, Standing.revision]
    · simp [hzero, hasRevision, Standing.revision, Ne.symm hzero]
  | some item =>
    obtain ⟨-, -, hpositive⟩ := h.roots _ item hroot
    by_cases hzero : w.expectedRevision = 0
    · cases hdeleted : item.deleted <;>
        simp [hzero, hdeleted, Standing.revision, hpositive.ne']
    · cases hdeleted : item.deleted <;>
        simp [hzero, hasRevision, hdeleted, Standing.revision, Ne.symm hzero]

/-- The condition of a deletion: the resource has the revision that is named. -/
theorem condition_markRoot (h : Consistent options created d) (resource : AgentResource V) :
    (markRoot options resource).condition (d.get? (rootKey options resource.key)) = true ↔
      Current (standing options d) ⟨resource, resource.revision⟩ ∧ resource.revision ≠ 0 := by
  rw [markRoot, Current, standing]
  cases hroot : d.get? (rootKey options resource.key) with
  | none => simp +contextual [hasRevision, Standing.revision, eq_comm]
  | some item =>
    obtain ⟨-, -, hpositive⟩ := h.roots _ item hroot
    cases hdeleted : item.deleted with
    | true => simp +contextual [hasRevision, hdeleted, Standing.revision, eq_comm]
    | false =>
      simp only [hasRevision, hdeleted, Standing.revision]
      grind

/-- The items of the writes of a transaction. -/
def itemsOf (options : Options) (writes : List (ResourceWrite V)) : List (TransactItem V) :=
  writes.flatMap fun w ↦ [putRoot options w.resource w.expectedRevision,
    putEntry options w.resource]

theorem writeItems_eq (hsize : writes.length ≤ 50)
    (hrevision : ∀ w ∈ writes, w.resource.revision = w.expectedRevision + 1) :
    writeItems options writes = .ok (itemsOf options writes) := by
  rw [writeItems, if_neg (not_lt.mpr hsize), if_neg]
  · rfl
  · rintro ⟨w, hw, hne⟩
    exact hne (hrevision w hw)

theorem writeItems_of_wrong
    (hrevision : ¬ ∀ w ∈ writes, w.resource.revision = w.expectedRevision + 1) :
    ∃ message, writeItems options writes = .error (.error message) := by
  rw [writeItems]
  split
  · exact ⟨_, rfl⟩
  · rw [if_pos (by simpa using hrevision)]
    exact ⟨_, rfl⟩

theorem keys_itemsOf (writes : List (ResourceWrite V)) :
    (itemsOf options writes).map (·.key) =
      (writes.map (·.resource)).flatMap fun r ↦ [rootKey options r.key, listKey options r] := by
  rw [itemsOf, List.map_flatMap, List.flatMap_map]
  rfl

theorem conditions_itemsOf (h : Consistent options created d) :
    (∀ item ∈ itemsOf options writes, item.condition (d.get? item.key) = true) ↔
      (∀ w ∈ writes, Current (standing options d) w) ∧ NoRevival (standing options d) writes := by
  rw [itemsOf, NoRevival, ← forall₂_and]
  simp only [List.mem_flatMap, List.mem_cons, List.not_mem_nil, or_false, forall_exists_index,
    and_imp]
  constructor
  · intro hitems w hw
    exact (condition_putRoot h w).mp (hitems _ w hw (.inl rfl))
  · rintro hwrites item w hw (rfl | rfl)
    · exact (condition_putRoot h w).mpr (hwrites w hw)
    · rfl

theorem transact_of_repeated {items : List (TransactItem V)} (h : ¬ (items.map (·.key)).Nodup) :
    ∃ message, transact d items = .error (.error message) :=
  ⟨_, if_pos h⟩

theorem transact_of_conditions {items : List (TransactItem V)} (h : (items.map (·.key)).Nodup)
    (hholds : ∀ item ∈ items, item.condition (d.get? item.key) = true) :
    transact d items = .ok (items.foldl TransactItem.apply d) := by
  rw [transact, if_neg (not_not.mpr h), if_neg]
  · rfl
  · rintro ⟨item, hitem, hfalse⟩
    rw [hholds item hitem] at hfalse
    cases hfalse

theorem transact_of_conflict {items : List (TransactItem V)} (h : (items.map (·.key)).Nodup)
    (hholds : ¬ ∀ item ∈ items, item.condition (d.get? item.key) = true) :
    transact d items = .error .resourceConflict := by
  rw [transact, if_neg (not_not.mpr h), if_pos (by simpa using hholds)]
  rfl

/-- What the writes of a transaction make of the items. -/
def allWritten (options : Options) (d : DynamoTable V) (writes : List (ResourceWrite V)) :
    DynamoTable V := writes.foldl (fun d w ↦ written options d w.resource) d

theorem foldl_itemsOf (writes : List (ResourceWrite V)) (d : DynamoTable V) :
    (itemsOf options writes).foldl TransactItem.apply d = allWritten options d writes := by
  rw [itemsOf, List.foldl_flatMap]
  rfl

/-- The root of another resource is as before. -/
theorem root_allWritten (hhash : Digests options.hash) {key : ResourceKey}
    (hother : ∀ w ∈ writes, w.resource.key ≠ key) :
    (allWritten options d writes).get? (rootKey options key) = d.get? (rootKey options key) := by
  induction writes generalizing d with
  | nil => rfl
  | cons w writes ih =>
    obtain ⟨hw, hwrites⟩ := List.forall_mem_cons.mp hother
    exact (ih hwrites).trans ((root_written hhash key).trans (if_neg hw.symm))

theorem consistent_allWritten (hhash : Digests options.hash) (hbound : ∀ key, created key < 10 ^ 16)
    (h : Consistent options created d)
    (hcreated : ∀ w ∈ writes, w.resource.createdAt = created w.resource.key)
    (hrevision : ∀ w ∈ writes, w.resource.revision = w.expectedRevision + 1) :
    Consistent options created (allWritten options d writes) := by
  induction writes generalizing d with
  | nil => exact h
  | cons w writes ih =>
    rw [List.forall_mem_cons] at hcreated hrevision
    exact ih (consistent_write hhash hbound h hcreated.1 (hrevision.1 ▸ Nat.succ_pos _))
      hcreated.2 hrevision.2

/-! ## Commits -/

theorem commit_eq_transact (hsize : writes.length ≤ 50)
    (hrevision : ∀ w ∈ writes, w.resource.revision = w.expectedRevision + 1) :
    commit options d writes = transact d (itemsOf options writes) := by
  rw [commit]
  split
  · next hempty =>
    subst hempty
    rfl
  · rw [writeItems_eq hsize hrevision]
    rfl

theorem nodup_itemsOf (hhash : Digests options.hash) (hbound : ∀ key, created key < 10 ^ 16)
    (hcreated : ∀ w ∈ writes, w.resource.createdAt = created w.resource.key) :
    ((itemsOf options writes).map (·.key)).Nodup ↔ (writes.map (·.resource.key)).Nodup := by
  rw [keys_itemsOf, nodup_itemKeys hhash hbound (List.forall_mem_map.mpr hcreated), List.map_map]
  rfl

theorem commit_of_malformed (hhash : Digests options.hash) (hbound : ∀ key, created key < 10 ^ 16)
    (hcreated : ∀ w ∈ writes, w.resource.createdAt = created w.resource.key)
    (hsize : writes.length ≤ 50) (hmalformed : ¬ WellFormed [] writes) :
    ∃ message, commit options d writes = .error (.error message) := by
  by_cases hrevision : ∀ w ∈ writes, w.resource.revision = w.expectedRevision + 1
  · rw [commit_eq_transact hsize hrevision]
    refine transact_of_repeated fun hnodup ↦ hmalformed ?_
    rw [nodup_itemsOf hhash hbound hcreated] at hnodup
    exact wellFormed_iff.mpr ⟨fun w hw ↦ ⟨List.not_mem_nil, hrevision w hw⟩, hnodup⟩
  · obtain ⟨message, hmessage⟩ := @writeItems_of_wrong V options writes hrevision
    refine ⟨message, ?_⟩
    rw [commit, if_neg, hmessage]
    · rfl
    · rintro rfl
      exact hrevision fun w hw ↦ nomatch hw

theorem commit_of_conflict (hhash : Digests options.hash) (hbound : ∀ key, created key < 10 ^ 16)
    (h : Consistent options created d)
    (hcreated : ∀ w ∈ writes, w.resource.createdAt = created w.resource.key)
    (hsize : writes.length ≤ 50) (hwell : WellFormed [] writes)
    (hconflict : ¬ ((∀ w ∈ writes, Current (standing options d) w) ∧
      NoRevival (standing options d) writes)) :
    commit options d writes = .error .resourceConflict := by
  obtain ⟨hrevision, hnodup⟩ := wellFormed_iff.mp hwell
  rw [commit_eq_transact hsize fun w hw ↦ (hrevision w hw).2]
  exact transact_of_conflict ((nodup_itemsOf hhash hbound hcreated).mpr hnodup)
    (mt (conditions_itemsOf h).mp hconflict)

theorem commit_of_current (hhash : Digests options.hash) (hbound : ∀ key, created key < 10 ^ 16)
    (h : Consistent options created d)
    (hcreated : ∀ w ∈ writes, w.resource.createdAt = created w.resource.key)
    (hsize : writes.length ≤ 50) (hwell : WellFormed [] writes)
    (hcurrent : ∀ w ∈ writes, Current (standing options d) w)
    (hrevival : NoRevival (standing options d) writes) :
    commit options d writes = .ok (allWritten options d writes) := by
  obtain ⟨hrevision, hnodup⟩ := wellFormed_iff.mp hwell
  rw [commit_eq_transact hsize fun w hw ↦ (hrevision w hw).2, ← foldl_itemsOf]
  exact transact_of_conditions ((nodup_itemsOf hhash hbound hcreated).mpr hnodup)
    ((conditions_itemsOf h).mpr ⟨hcurrent, hrevival⟩)

/-- What an accepted transaction was, and what it has made of the items. -/
theorem commit_eq_ok (hhash : Digests options.hash) (hbound : ∀ key, created key < 10 ^ 16)
    (h : Consistent options created d)
    (hcreated : ∀ w ∈ writes, w.resource.createdAt = created w.resource.key) {d' : DynamoTable V}
    (haccepted : commit options d writes = .ok d') :
    WellFormed [] writes ∧ (∀ w ∈ writes, Current (standing options d) w) ∧
      NoRevival (standing options d) writes ∧ d' = allWritten options d writes := by
  have hsize : writes.length ≤ 50 := by
    by_contra hlarge
    rw [commit, if_neg, writeItems, if_pos (not_le.mp hlarge)] at haccepted
    · cases haccepted
    · rintro rfl
      exact hlarge (Nat.zero_le 50)
  have hwell : WellFormed [] writes := by
    by_contra hmalformed
    obtain ⟨message, hmessage⟩ :=
        commit_of_malformed (d := d) hhash hbound hcreated hsize hmalformed
    rw [hmessage] at haccepted
    cases haccepted
  have hholds : (∀ w ∈ writes, Current (standing options d) w) ∧
      NoRevival (standing options d) writes := by
    by_contra hconflict
    rw [commit_of_conflict hhash hbound h hcreated hsize hwell hconflict] at haccepted
    cases haccepted
  rw [commit_of_current hhash hbound h hcreated hsize hwell hholds.1 hholds.2] at haccepted
  cases haccepted
  exact ⟨hwell, hholds.1, hholds.2, rfl⟩

/-! ## Deletions -/

/-- The items of a deletion. -/
def deletionItems (options : Options) (resource : AgentResource V)
    (writes : List (ResourceWrite V)) : List (TransactItem V) :=
  itemsOf options writes ++ [markRoot options resource, dropEntry options resource]

theorem delete_eq_transact {resource : AgentResource V} (hsize : writes.length ≤ 49)
    (hrevision : ∀ w ∈ writes, w.resource.revision = w.expectedRevision + 1) :
    delete options d resource writes = transact d (deletionItems options resource writes) := by
  rw [delete, if_neg (not_lt.mpr hsize), writeItems_eq (hsize.trans (by decide)) hrevision]
  rfl

theorem nodup_deletionItems (hhash : Digests options.hash) (hbound : ∀ key, created key < 10 ^ 16)
    {resource : AgentResource V} (hresource : resource.createdAt = created resource.key)
    (hcreated : ∀ w ∈ writes, w.resource.createdAt = created w.resource.key) :
    ((deletionItems options resource writes).map (·.key)).Nodup ↔
      (∀ w ∈ writes, w.resource.key ≠ resource.key) ∧ (writes.map (·.resource.key)).Nodup := by
  have hkeys : (deletionItems options resource writes).map (·.key) =
      (writes.map (·.resource) ++ [resource]).flatMap
        fun r ↦ [rootKey options r.key, listKey options r] := by
    rw [deletionItems, List.map_append, keys_itemsOf, List.flatMap_append]
    rfl
  have hall : ∀ r ∈ writes.map (·.resource) ++ [resource], r.createdAt = created r.key := by
    intro r hr
    rcases List.mem_append.mp hr with hr | hr
    · obtain ⟨w, hw, rfl⟩ := List.mem_map.mp hr
      exact hcreated w hw
    · rw [List.mem_singleton.mp hr, hresource]
  rw [hkeys, nodup_itemKeys hhash hbound hall, List.map_append, List.map_map, List.nodup_append]
  simp [and_comm, Function.comp_def]

theorem conditions_deletionItems (h : Consistent options created d) {resource : AgentResource V} :
    (∀ item ∈ deletionItems options resource writes, item.condition (d.get? item.key) = true) ↔
      ((∀ w ∈ writes, Current (standing options d) w) ∧ NoRevival (standing options d) writes) ∧
        Current (standing options d) ⟨resource, resource.revision⟩ ∧ resource.revision ≠ 0 := by
  rw [deletionItems, List.forall_mem_append, conditions_itemsOf h, ← condition_markRoot h]
  simp [markRoot, dropEntry]

theorem wellFormed_singleton {key : ResourceKey} : WellFormed [key] writes ↔
    (∀ w ∈ writes, w.resource.revision = w.expectedRevision + 1) ∧
      (∀ w ∈ writes, w.resource.key ≠ key) ∧ (writes.map (·.resource.key)).Nodup := by
  rw [wellFormed_iff]
  simp only [List.mem_singleton, forall_and]
  tauto

theorem delete_of_malformed (hhash : Digests options.hash) (hbound : ∀ key, created key < 10 ^ 16)
    {resource : AgentResource V} (hresource : resource.createdAt = created resource.key)
    (hcreated : ∀ w ∈ writes, w.resource.createdAt = created w.resource.key)
    (hmalformed : ¬ (writes.length ≤ 49 ∧ WellFormed [resource.key] writes)) :
    ∃ message, delete options d resource writes = .error (.error message) := by
  by_cases hsize : writes.length ≤ 49
  · by_cases hrevision : ∀ w ∈ writes, w.resource.revision = w.expectedRevision + 1
    · rw [delete_eq_transact hsize hrevision]
      refine transact_of_repeated fun hnodup ↦ hmalformed ⟨hsize, ?_⟩
      exact wellFormed_singleton.mpr
        ⟨hrevision, (nodup_deletionItems hhash hbound hresource hcreated).mp hnodup⟩
    · obtain ⟨message, hmessage⟩ := @writeItems_of_wrong V options writes hrevision
      refine ⟨message, ?_⟩
      rw [delete, if_neg (not_lt.mpr hsize), hmessage]
      rfl
  · exact ⟨_, if_pos (not_le.mp hsize)⟩

theorem delete_of_conflict (hhash : Digests options.hash) (hbound : ∀ key, created key < 10 ^ 16)
    (h : Consistent options created d) {resource : AgentResource V}
    (hresource : resource.createdAt = created resource.key)
    (hcreated : ∀ w ∈ writes, w.resource.createdAt = created w.resource.key)
    (hsize : writes.length ≤ 49) (hwell : WellFormed [resource.key] writes)
    (hconflict : ¬ (((∀ w ∈ writes, Current (standing options d) w) ∧
        NoRevival (standing options d) writes) ∧
      Current (standing options d) ⟨resource, resource.revision⟩ ∧ resource.revision ≠ 0)) :
    delete options d resource writes = .error .resourceConflict := by
  obtain ⟨hrevision, hkeys⟩ := wellFormed_singleton.mp hwell
  rw [delete_eq_transact hsize hrevision]
  exact transact_of_conflict ((nodup_deletionItems hhash hbound hresource hcreated).mpr hkeys)
    (mt (conditions_deletionItems h).mp hconflict)

/-- A deletion that both stores accept. -/
theorem delete_of_current (hhash : Digests options.hash) (hbound : ∀ key, created key < 10 ^ 16)
    (h : Consistent options created d) {resource : AgentResource V}
    (hresource : resource.createdAt = created resource.key)
    (hcreated : ∀ w ∈ writes, w.resource.createdAt = created w.resource.key)
    (hsize : writes.length ≤ 49) (hwell : WellFormed [resource.key] writes)
    (hcurrent : (∀ w ∈ writes, Current (standing options d) w) ∧
      NoRevival (standing options d) writes)
    (htarget : Current (standing options d) ⟨resource, resource.revision⟩ ∧ resource.revision ≠ 0) :
    ∃ item, d.get? (rootKey options resource.key) = some item ∧
      delete options d resource writes =
        .ok (dropped options (allWritten options d writes) resource item) := by
  obtain ⟨hrevision, hkeys⟩ := wellFormed_singleton.mp hwell
  obtain ⟨item, hitem⟩ : ∃ item, d.get? (rootKey options resource.key) = some item := by
    rw [← Option.isSome_iff_exists]
    have hcondition := (condition_markRoot h resource).mpr htarget
    cases hroot : d.get? (rootKey options resource.key) with
    | none =>
      rw [hroot] at hcondition
      cases hcondition
    | some item => rfl
  refine ⟨item, hitem, ?_⟩
  rw [delete_eq_transact hsize hrevision,
    transact_of_conditions ((nodup_deletionItems hhash hbound hresource hcreated).mpr hkeys)
      ((conditions_deletionItems h).mpr ⟨hcurrent, htarget⟩),
    deletionItems, List.foldl_append, foldl_itemsOf]
  have hroot : (allWritten options d writes).get? (rootKey options resource.key) = some item :=
    (root_allWritten hhash hkeys.1).trans hitem
  simp only [List.foldl_cons, List.foldl_nil, TransactItem.apply, markRoot, dropEntry, hroot,
    Option.map_some, dropped]

/-- What an accepted deletion was, and what it has made of the items. -/
theorem delete_eq_ok (hhash : Digests options.hash) (hbound : ∀ key, created key < 10 ^ 16)
    (h : Consistent options created d) {resource : AgentResource V}
    (hresource : resource.createdAt = created resource.key)
    (hcreated : ∀ w ∈ writes, w.resource.createdAt = created w.resource.key) {d' : DynamoTable V}
    (haccepted : delete options d resource writes = .ok d') :
    WellFormed [resource.key] writes ∧ ((∀ w ∈ writes, Current (standing options d) w) ∧
        NoRevival (standing options d) writes) ∧
      Current (standing options d) ⟨resource, resource.revision⟩ ∧
      ∃ item, d.get? (rootKey options resource.key) = some item ∧
        d' = dropped options (allWritten options d writes) resource item := by
  have hvalid : writes.length ≤ 49 ∧ WellFormed [resource.key] writes := by
    by_contra hmalformed
    obtain ⟨message, hmessage⟩ :=
        delete_of_malformed (d := d) hhash hbound hresource hcreated hmalformed
    rw [hmessage] at haccepted
    cases haccepted
  have hholds : ((∀ w ∈ writes, Current (standing options d) w) ∧
      NoRevival (standing options d) writes) ∧
        Current (standing options d) ⟨resource, resource.revision⟩ ∧ resource.revision ≠ 0 := by
    by_contra hconflict
    rw [delete_of_conflict hhash hbound h hresource hcreated hvalid.1 hvalid.2
      hconflict] at haccepted
    cases haccepted
  obtain ⟨item, hitem, hdelete⟩ := delete_of_current hhash hbound h hresource hcreated hvalid.1
    hvalid.2 hholds.1 hholds.2
  rw [hdelete] at haccepted
  cases haccepted
  exact ⟨hvalid.2, hholds.1, hholds.2.1, item, hitem, rfl⟩

/-! ## Runs

Whatever is asked of the store, roots and entries stay together: no operation has to be one on which
another store agrees. -/

theorem consistent_commit (hhash : Digests options.hash) (hbound : ∀ key, created key < 10 ^ 16)
    (h : Consistent options created d)
    (hcreated : ∀ w ∈ writes, w.resource.createdAt = created w.resource.key) {d' : DynamoTable V}
    (haccepted : commit options d writes = .ok d') : Consistent options created d' := by
  obtain ⟨hwell, -, -, rfl⟩ := commit_eq_ok hhash hbound h hcreated haccepted
  exact consistent_allWritten hhash hbound h hcreated
    fun w hw ↦ ((wellFormed_iff.mp hwell).1 w hw).2

theorem consistent_deletion (hhash : Digests options.hash) (hbound : ∀ key, created key < 10 ^ 16)
    (h : Consistent options created d) {resource : AgentResource V}
    (hresource : resource.createdAt = created resource.key)
    (hcreated : ∀ w ∈ writes, w.resource.createdAt = created w.resource.key) {d' : DynamoTable V}
    (haccepted : delete options d resource writes = .ok d') : Consistent options created d' := by
  obtain ⟨hwell, -, -, item, hitem, rfl⟩ := delete_eq_ok hhash hbound h hresource hcreated haccepted
  obtain ⟨hrevision, hother, -⟩ := wellFormed_singleton.mp hwell
  refine consistent_delete hhash hbound (consistent_allWritten hhash hbound h hcreated hrevision)
    hresource ?_
  exact (root_allWritten hhash hother).trans hitem

theorem consistent_settle (h : Consistent options created d)
    {result : Except AgentsStoreError (DynamoTable V)}
    (hresult : ∀ d', result = .ok d' → Consistent options created d') :
    Consistent options created
      (settle d result : Except AgentsStoreError (StoreAnswer V) × DynamoTable V).2 := by
  rcases result with e | d'
  · exact h
  · exact hresult d' rfl

/-- **An operation keeps roots and entries together**, whether it is accepted or not. -/
theorem consistent_step (hhash : Digests options.hash) (hbound : ∀ key, created key < 10 ^ 16)
    (h : Consistent options created d) {op : StoreOp V}
    (hcreated : ∀ resource ∈ op.resources, resource.createdAt = created resource.key) :
    Consistent options created (step options d op).2 := by
  cases op with
  | get key => exact h
  | list owner collection query => exact h
  | put resource revision =>
    refine consistent_settle h fun d' ↦ consistent_commit hhash hbound h ?_
    simpa [StoreOp.resources] using hcreated
  | commit writes =>
    exact consistent_settle h fun d' ↦
      consistent_commit hhash hbound h (List.forall_mem_map.mp hcreated)
  | delete resource writes =>
    obtain ⟨hresource, hwrites⟩ := List.forall_mem_cons.mp hcreated
    exact consistent_settle h fun d' ↦
      consistent_deletion hhash hbound h hresource (List.forall_mem_map.mp hwrites)

theorem consistent_after (hhash : Digests options.hash) (hbound : ∀ key, created key < 10 ^ 16)
    {ops : List (StoreOp V)}
    (hcreated : ∀ op ∈ ops, ∀ resource ∈ op.resources, resource.createdAt = created resource.key) :
    Consistent options created (after options ops) := by
  induction ops using List.reverseRecOn with
  | nil => exact consistent_empty
  | append_singleton ops op ih =>
    rw [List.forall_mem_append, List.forall_mem_singleton] at hcreated
    rw [after, List.foldl_append]
    exact consistent_step hhash hbound (ih hcreated.1) hcreated.2

end DynamoAgentsStore

end RatThings
