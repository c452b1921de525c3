import Mathlib.Data.List.Induction
import RatThings.Stores.Agreement

/-!
# One contract for two stores

The services run over either of two stores, and the local one is meant to keep the contract of the
other. This module compares them on any sequence of operations.

## Runs in step

After every operation on which the two stores agree, their tables mirror each other again, so that
two runs of the same operations go on in step until one of them is not `Comparable`. What is left
out by that is what the local store has forgotten, namely that a resource was deleted, and
transactions in which it finds a stale revision before a malformed write. For the next operation
behind such a run, the answers are the same if and only if it is `Comparable`.

## Errors

Callers tell errors apart by their status and code, and a few of them by the class of the error. The
local store never raises `AgentsResourceConflictError`, so those do not recognise its conflicts; the
second part of the result says for which operations that makes a difference.
-/

namespace RatThings

open Concurrent
open DynamoAgentsStore (standing)

variable {V : Type}

/-! ## Answers

Two answers are the same if callers cannot tell them apart by status, code or value. -/

/-- How a transaction is refused, if it is. -/
def refusal {T : Type} : Except AgentsStoreError T → Option ErrorKind
  | .ok _ => none
  | .error e => some e.kind

theorem sameAnswer_settle {S T : Type} {s : S} {t : T} {r : Except AgentsStoreError S}
    {r' : Except AgentsStoreError T} :
    SameAnswer (settle s r : Except AgentsStoreError (StoreAnswer V) × S).1 (settle t r').1 ↔
      refusal r = refusal r' := by
  cases r <;> cases r' <;> simp [settle, SameAnswer, refusal]

/-- Neither answer is an error of the class `AgentsResourceConflictError`, or both are. -/
def SameClass (r r' : Except AgentsStoreError (StoreAnswer V)) : Prop :=
  r = .error .resourceConflict ↔ r' = .error .resourceConflict

section Conflicts

variable (standing : ResourceKey → Standing)

/-- A revision that is not the current one is found before any malformed write. -/
def Conflicts : StoreOp V → Prop
  | .get _ => False
  | .list _ _ _ => False
  | .put resource expectedRevision =>
    ¬ PlainlyMalformed standing [] [⟨resource, expectedRevision⟩] ∧
      ¬ Current standing ⟨resource, expectedRevision⟩
  | .commit writes => ¬ PlainlyMalformed standing [] writes ∧ ∃ w ∈ writes, ¬ Current standing w
  | .delete resource writes => ¬ Current standing ⟨resource, resource.revision⟩ ∨
    ¬ PlainlyMalformed standing [] writes ∧ ∃ w ∈ writes, ¬ Current standing w

end Conflicts

variable {options : DynamoAgentsStore.Options} {created : ResourceKey → ℕ} {s : SqliteTable V}
  {d : DynamoTable V} {writes : List (ResourceWrite V)} {resource : AgentResource V}

/-! ## The local store -/

namespace SqliteAgentsStore

theorem commit_of_plainly (h : Mirrors options created s d)
    (hmalformed : PlainlyMalformed (standing options d) [] writes) :
    commit s writes = .error (.error "Invalid local transaction.") := by
  rw [commit, validateWrites_of_plainly h hmalformed]
  rfl

theorem commit_of_stale (h : Mirrors options created s d)
    (hplain : ¬ PlainlyMalformed (standing options d) [] writes)
    (hstale : ∃ w ∈ writes, ¬ Current (standing options d) w) :
    commit s writes = .error conflict := by
  rw [commit, validateWrites_of_stale h hplain hstale]
  rfl

theorem commit_of_current (h : Mirrors options created s d) (hwell : WellFormed [] writes)
    (hcurrent : ∀ w ∈ writes, Current (standing options d) w) :
    commit s writes = .ok (writes.foldl (fun s w ↦ write s w.resource) s) := by
  rw [commit, validateWrites_of_current h hwell hcurrent]
  rfl

theorem delete_of_stale (h : Mirrors options created s d)
    (hstale : ¬ Current (standing options d) ⟨resource, resource.revision⟩) :
    delete s resource writes = .error conflict := by
  rw [delete,
    show expect s resource resource.revision = .error conflict from expect_of_stale h hstale]
  rfl

theorem delete_eq_of_current (h : Mirrors options created s d)
    (hcurrent : Current (standing options d) ⟨resource, resource.revision⟩) :
    delete s resource writes = (commit s writes).map (·.erase resource.key) := by
  rw [delete, show expect s resource resource.revision = .ok () from expect_of_current h hcurrent,
    commit]
  cases validateWrites s [] writes <;> rfl

end SqliteAgentsStore

/-! ## Commits

By cases on the writes: one is malformed, one is stale, or all are well formed and current. -/

theorem commit_agrees (hhash : Digests options.hash) (hbound : ∀ key, created key < 10 ^ 16)
    (h : Mirrors options created s d)
    (hcreated : ∀ w ∈ writes, w.resource.createdAt = created w.resource.key)
    (hsize : writes.length ≤ 50) :
    refusal (SqliteAgentsStore.commit s writes) =
        refusal (DynamoAgentsStore.commit options d writes) ↔
      Comparable (standing options d) (.commit writes) := by
  rw [Comparable]
  by_cases hplain : PlainlyMalformed (standing options d) [] writes
  · obtain ⟨message, hmessage⟩ := DynamoAgentsStore.commit_of_malformed (d := d) hhash hbound
      hcreated hsize (not_wellFormed_of_plainly hplain)
    rw [SqliteAgentsStore.commit_of_plainly h hplain, hmessage]
    exact iff_of_true rfl (.inl hplain)
  by_cases hwell : WellFormed [] writes
  · by_cases hcurrent : ∀ w ∈ writes, Current (standing options d) w
    · rw [SqliteAgentsStore.commit_of_current h hwell hcurrent]
      by_cases hrevival : NoRevival (standing options d) writes
      · rw [DynamoAgentsStore.commit_of_current hhash hbound h.toConsistent hcreated hsize hwell
          hcurrent hrevival]
        exact iff_of_true rfl (.inr ⟨hwell, .inr hrevival⟩)
      · rw [DynamoAgentsStore.commit_of_conflict hhash hbound h.toConsistent hcreated hsize hwell
          fun h ↦ hrevival h.2]
        refine iff_of_false (fun hsame ↦ by cases hsame) ?_
        rintro (hmalformed | ⟨-, ⟨w, hw, hstale⟩ | hrevival'⟩)
        · exact hplain hmalformed
        · exact hstale (hcurrent w hw)
        · exact hrevival hrevival'
    · have hstale : ∃ w ∈ writes, ¬ Current (standing options d) w := by simpa using hcurrent
      rw [SqliteAgentsStore.commit_of_stale h hplain hstale,
        DynamoAgentsStore.commit_of_conflict hhash hbound h.toConsistent hcreated hsize hwell
          fun h ↦ hcurrent h.1]
      exact iff_of_true rfl (.inr ⟨hwell, .inl hstale⟩)
  · -- A malformed write is behind a stale one: only one of the stores looks at the stale one first.
    have hstale : ∃ w ∈ writes, ¬ Current (standing options d) w := by
      by_contra hnone
      exact hwell (wellFormed_of_current hplain (by simpa using hnone))
    obtain ⟨message, hmessage⟩ := DynamoAgentsStore.commit_of_malformed (d := d) hhash hbound
      hcreated hsize hwell
    rw [SqliteAgentsStore.commit_of_stale h hplain hstale, hmessage]
    exact iff_of_false (fun hsame ↦ by cases hsame) (by simp [hplain, hwell])

theorem mirrors_allWritten (hhash : Digests options.hash) (hbound : ∀ key, created key < 10 ^ 16)
    (h : Mirrors options created s d)
    (hcreated : ∀ w ∈ writes, w.resource.createdAt = created w.resource.key)
    (hrevision : ∀ w ∈ writes, w.resource.revision = w.expectedRevision + 1)
    (hexpires : ∀ w ∈ writes, w.resource.expiresAt ≠ some 0) :
    Mirrors options created (writes.foldl (fun s w ↦ SqliteAgentsStore.write s w.resource) s)
      (DynamoAgentsStore.allWritten options d writes) := by
  induction writes generalizing s d with
  | nil => exact h
  | cons w writes ih =>
    rw [List.forall_mem_cons] at hcreated hrevision hexpires
    have hpositive : 0 < w.resource.revision := hrevision.1 ▸ Nat.succ_pos _
    exact ih (DynamoAgentsStore.mirrors_write hhash hbound h hcreated.1 hpositive hexpires.1)
      hcreated.2 hrevision.2 hexpires.2

/-- What DynamoDB accepts, the local store accepts. -/
theorem mirrors_commit (hhash : Digests options.hash) (hbound : ∀ key, created key < 10 ^ 16)
    (h : Mirrors options created s d)
    (hcreated : ∀ w ∈ writes, w.resource.createdAt = created w.resource.key)
    (hexpires : ∀ w ∈ writes, w.resource.expiresAt ≠ some 0)
    {d' : DynamoTable V} (haccepted : DynamoAgentsStore.commit options d writes = .ok d') :
    ∃ s', SqliteAgentsStore.commit s writes = .ok s' ∧ Mirrors options created s' d' := by
  obtain ⟨hwell, hcurrent, -, rfl⟩ :=
    DynamoAgentsStore.commit_eq_ok hhash hbound h.toConsistent hcreated haccepted
  have hrevision := fun w hw ↦ ((wellFormed_iff.mp hwell).1 w hw).2
  exact ⟨_, SqliteAgentsStore.commit_of_current h hwell hcurrent,
    mirrors_allWritten hhash hbound h hcreated hrevision hexpires⟩

/-! ## Deletions -/

theorem delete_agrees (hhash : Digests options.hash) (hbound : ∀ key, created key < 10 ^ 16)
    (h : Mirrors options created s d) (hresource : resource.createdAt = created resource.key)
    (hcreated : ∀ w ∈ writes, w.resource.createdAt = created w.resource.key) :
    refusal (SqliteAgentsStore.delete s resource writes) =
        refusal (DynamoAgentsStore.delete options d resource writes) ↔
      Comparable (standing options d) (.delete resource writes) := by
  rw [Comparable]
  -- DynamoDB checks the request before any revision; the local store looks at the target first.
  by_cases hvalid : writes.length ≤ 49 ∧ WellFormed [resource.key] writes
  · have hwell : WellFormed [] writes := by
      obtain ⟨hrevision, -, hnodup⟩ := DynamoAgentsStore.wellFormed_singleton.mp hvalid.2
      exact wellFormed_iff.mpr ⟨fun w hw ↦ ⟨List.not_mem_nil, hrevision w hw⟩, hnodup⟩
    have hplain : ¬ PlainlyMalformed (standing options d) [] writes := fun h ↦
      not_wellFormed_of_plainly h hwell
    have hconflict := @DynamoAgentsStore.delete_of_conflict V options created d writes hhash hbound
      h.toConsistent resource hresource hcreated hvalid.1 hvalid.2
    by_cases htarget : Current (standing options d) ⟨resource, resource.revision⟩
    · rw [SqliteAgentsStore.delete_eq_of_current h htarget]
      by_cases hcurrent : ∀ w ∈ writes, Current (standing options d) w
      · rw [SqliteAgentsStore.commit_of_current h hwell hcurrent]
        by_cases hrest : resource.revision ≠ 0 ∧ NoRevival (standing options d) writes
        · obtain ⟨item, -, haccepted⟩ :=
            DynamoAgentsStore.delete_of_current hhash hbound h.toConsistent hresource
            hcreated hvalid.1 hvalid.2 ⟨hcurrent, hrest.2⟩ ⟨htarget, hrest.1⟩
          rw [haccepted]
          exact iff_of_true rfl (.inr ⟨hvalid.1, hvalid.2, .inr hrest⟩)
        · rw [hconflict fun h ↦ hrest ⟨h.2.2, h.1.2⟩]
          refine iff_of_false (fun hsame ↦ by cases hsame) ?_
          rintro (⟨-, hmalformed⟩ | ⟨-, -, (hstale | ⟨w, hw, hstale⟩) | hrest'⟩)
          · exact hplain hmalformed
          · exact hstale htarget
          · exact hstale (hcurrent w hw)
          · exact hrest hrest'
      · have hstale : ∃ w ∈ writes, ¬ Current (standing options d) w := by simpa using hcurrent
        rw [SqliteAgentsStore.commit_of_stale h hplain hstale, hconflict fun h ↦ hcurrent h.1.1]
        exact iff_of_true rfl (.inr ⟨hvalid.1, hvalid.2, .inl (.inr hstale)⟩)
    · rw [SqliteAgentsStore.delete_of_stale h htarget, hconflict fun h ↦ htarget h.2.1]
      exact iff_of_true rfl (.inr ⟨hvalid.1, hvalid.2, .inl (.inl htarget)⟩)
  · obtain ⟨message, hmessage⟩ := @DynamoAgentsStore.delete_of_malformed V options created d writes
      hhash hbound resource hresource hcreated hvalid
    have hinvalid : ∀ p : Prop, ¬ (writes.length ≤ 49 ∧ WellFormed [resource.key] writes ∧ p) :=
      fun p hp ↦ hvalid ⟨hp.1, hp.2.1⟩
    rw [hmessage, or_iff_left (hinvalid _)]
    by_cases htarget : Current (standing options d) ⟨resource, resource.revision⟩
    · rw [SqliteAgentsStore.delete_eq_of_current h htarget]
      by_cases hplain : PlainlyMalformed (standing options d) [] writes
      · rw [SqliteAgentsStore.commit_of_plainly h hplain]
        exact iff_of_true rfl ⟨htarget, hplain⟩
      · refine iff_of_false ?_ fun h ↦ hplain h.2
        by_cases hcurrent : ∀ w ∈ writes, Current (standing options d) w
        · rw [SqliteAgentsStore.commit_of_current h
            (wellFormed_of_current hplain hcurrent) hcurrent]
          exact fun hsame ↦ by cases hsame
        · rw [SqliteAgentsStore.commit_of_stale h hplain (by simpa using hcurrent)]
          exact fun hsame ↦ by cases hsame
    · rw [SqliteAgentsStore.delete_of_stale h htarget]
      exact iff_of_false (fun hsame ↦ by cases hsame) fun h ↦ htarget h.1

theorem mirrors_deletion (hhash : Digests options.hash) (hbound : ∀ key, created key < 10 ^ 16)
    (h : Mirrors options created s d) (hresource : resource.createdAt = created resource.key)
    (hcreated : ∀ w ∈ writes, w.resource.createdAt = created w.resource.key)
    (hexpires : ∀ w ∈ writes, w.resource.expiresAt ≠ some 0) {d' : DynamoTable V}
    (haccepted : DynamoAgentsStore.delete options d resource writes = .ok d') :
    ∃ s', SqliteAgentsStore.delete s resource writes = .ok s' ∧ Mirrors options created s' d' := by
  obtain ⟨hvalid, ⟨hcurrent, -⟩, htarget, item, hitem, rfl⟩ :=
    DynamoAgentsStore.delete_eq_ok hhash hbound h.toConsistent hresource hcreated haccepted
  obtain ⟨hrevision, hother, hnodup⟩ := DynamoAgentsStore.wellFormed_singleton.mp hvalid
  have hwell : WellFormed [] writes :=
    wellFormed_iff.mpr ⟨fun w hw ↦ ⟨List.not_mem_nil, hrevision w hw⟩, hnodup⟩
  refine ⟨_, ?_, DynamoAgentsStore.mirrors_delete hhash hbound
    (mirrors_allWritten hhash hbound h hcreated hrevision hexpires) hresource
    ((DynamoAgentsStore.root_allWritten hhash hother).trans hitem)⟩
  rw [SqliteAgentsStore.delete_eq_of_current h htarget,
    SqliteAgentsStore.commit_of_current h hwell hcurrent]
  rfl

/-! ## Steps -/

/-- What a step keeps of the tables, if the stores agree on it. -/
theorem mirrors_settle (h : Mirrors options created s d)
    {r : Except AgentsStoreError (SqliteTable V)}
    {r' : Except AgentsStoreError (DynamoTable V)} (hsame : refusal r = refusal r')
    (haccepted : ∀ d', r' = .ok d' → ∃ s', r = .ok s' ∧ Mirrors options created s' d') :
    Mirrors options created (settle s r : Except AgentsStoreError (StoreAnswer V) × _).2
      (settle d r' : Except AgentsStoreError (StoreAnswer V) × _).2 := by
  cases r' with
  | ok d' =>
    obtain ⟨s', rfl, hmirrors⟩ := haccepted d' rfl
    exact hmirrors
  | error e =>
    cases r with
    | ok s' => cases hsame
    | error e' => exact h

theorem comparable_put {known : ResourceKey → Standing} {n : ℕ} :
    Comparable known (.put resource n) ↔ Comparable known (.commit [⟨resource, n⟩]) := by
  simp only [Comparable, List.mem_singleton, exists_eq_left]

theorem step_agrees (hhash : Digests options.hash) (hbound : ∀ key, created key < 10 ^ 16)
    (h : Mirrors options created s d) {op : StoreOp V} (hregular : op.Regular created) :
    SameAnswer (SqliteAgentsStore.step s op).1 (DynamoAgentsStore.step options d op).1 ↔
      Comparable (standing options d) op := by
  obtain ⟨hcreated, hlimit, hsize⟩ := hregular
  cases op with
  | get key =>
    have hget : SqliteAgentsStore.get s key = DynamoAgentsStore.get options d key := by
      rw [SqliteAgentsStore.get, h.rows, Option.map_map]
      exact congrFun Option.map_id _
    refine iff_of_true ?_ trivial
    rw [SqliteAgentsStore.step, DynamoAgentsStore.step, hget]
    rfl
  | list owner collection query =>
    exact DynamoAgentsStore.agrees_list h hbound (hlimit owner collection query rfl)
  | put resource n =>
    refine sameAnswer_settle.trans ((commit_agrees hhash hbound h ?_ (by simp)).trans
      comparable_put.symm)
    exact List.forall_mem_singleton.mpr (hcreated resource List.mem_cons_self)
  | commit writes =>
    exact sameAnswer_settle.trans (commit_agrees hhash hbound h
      (fun w hw ↦ hcreated _ (List.mem_map_of_mem hw)) (hsize writes rfl))
  | delete resource writes =>
    exact sameAnswer_settle.trans (delete_agrees hhash hbound h (hcreated _ List.mem_cons_self)
      fun w hw ↦ hcreated _ (List.mem_cons_of_mem _ (List.mem_map_of_mem hw)))

theorem mirrors_step (hhash : Digests options.hash) (hbound : ∀ key, created key < 10 ^ 16)
    (h : Mirrors options created s d) {op : StoreOp V} (hregular : op.Regular created)
    (hexpires : ∀ resource ∈ op.resources, resource.expiresAt ≠ some 0)
    (hsame : SameAnswer (SqliteAgentsStore.step s op).1 (DynamoAgentsStore.step options d op).1) :
    Mirrors options created (SqliteAgentsStore.step s op).2
      (DynamoAgentsStore.step options d op).2 := by
  have hcreated := hregular.created
  cases op with
  | get key => exact h
  | list owner collection query => exact h
  | put resource n =>
    refine mirrors_settle h (sameAnswer_settle.mp hsame) fun d' haccepted ↦
      mirrors_commit hhash hbound h ?_ ?_ haccepted
    · exact List.forall_mem_singleton.mpr (hcreated resource List.mem_cons_self)
    · exact List.forall_mem_singleton.mpr (hexpires resource List.mem_cons_self)
  | commit writes =>
    exact mirrors_settle h (sameAnswer_settle.mp hsame) fun d' haccepted ↦
      mirrors_commit hhash hbound h (fun w hw ↦ hcreated _ (List.mem_map_of_mem hw))
        (fun w hw ↦ hexpires _ (List.mem_map_of_mem hw)) haccepted
  | delete resource writes =>
    exact mirrors_settle h (sameAnswer_settle.mp hsame) fun d' haccepted ↦
      mirrors_deletion hhash hbound h (hcreated _ List.mem_cons_self)
        (fun w hw ↦ hcreated _ (List.mem_cons_of_mem _ (List.mem_map_of_mem hw)))
        (fun w hw ↦ hexpires _ (List.mem_cons_of_mem _ (List.mem_map_of_mem hw))) haccepted

/-! ## Refusals

Whether an error is of the class depends on the store and on what refused the operation. -/

theorem settle_eq_error {T : Type} {table : T} {r : Except AgentsStoreError T}
    {e : AgentsStoreError} :
    (settle table r : Except AgentsStoreError (StoreAnswer V) × T).1 = .error e ↔ r = .error e := by
  cases r <;> simp [settle]

theorem settle_of_error {T : Type} {table : T} {r : Except AgentsStoreError T}
    {e : AgentsStoreError}
    (h : (settle table r : Except AgentsStoreError (StoreAnswer V) × T).1 = .error e) :
    (settle table r : Except AgentsStoreError (StoreAnswer V) × T).2 = table := by
  rw [settle_eq_error.mp h]
  rfl

namespace SqliteAgentsStore

/-- A refused operation leaves the table as it was. -/
theorem step_of_error {op : StoreOp V} {e : AgentsStoreError} (h : (step s op).1 = .error e) :
    (step s op).2 = s := by
  cases op with
  | get key => rfl
  | list owner collection query => rfl
  | put resource n => exact settle_of_error h
  | commit writes => exact settle_of_error h
  | delete resource writes => exact settle_of_error h

theorem validateWrites_ne_resourceConflict {identities : List ResourceKey} :
    validateWrites s identities writes ≠ .error .resourceConflict := by
  induction writes generalizing identities with
  | nil =>
    intro h
    cases h
  | cons w writes ih =>
    by_cases hw : Malformed identities w
    · rw [validateWrites_of_malformed hw]
      simp
    · rw [validateWrites_cons hw, expect]
      split
      · intro h
        cases h
      · exact ih

theorem commit_ne_resourceConflict : commit s writes ≠ .error .resourceConflict := by
  intro h
  rw [commit] at h
  cases hvalid : validateWrites s [] writes with
  | error e =>
    rw [hvalid] at h
    cases h
    exact validateWrites_ne_resourceConflict hvalid
  | ok _ =>
    rw [hvalid] at h
    cases h

theorem delete_ne_resourceConflict : delete s resource writes ≠ .error .resourceConflict := by
  intro h
  rw [delete, expect] at h
  split at h
  · cases h
  · cases hvalid : validateWrites s [] writes with
    | error e =>
      rw [hvalid] at h
      cases h
      exact validateWrites_ne_resourceConflict hvalid
    | ok _ =>
      rw [hvalid] at h
      cases h

/-- The local store has no error of the class that marks a rejected write. -/
theorem step_ne_resourceConflict (op : StoreOp V) : (step s op).1 ≠ .error .resourceConflict := by
  cases op with
  | get key => exact fun h ↦ by cases h
  | list owner collection query =>
    rw [step, list]
    cases query.cursor? with
    | none => exact fun h ↦ by cases h
    | some after =>
      dsimp only
      cases get s (owner, collection, after) <;> exact fun h ↦ by cases h
  | put resource n => exact mt settle_eq_error.mp commit_ne_resourceConflict
  | commit writes => exact mt settle_eq_error.mp commit_ne_resourceConflict
  | delete resource writes => exact mt settle_eq_error.mp delete_ne_resourceConflict

theorem commit_conflicts (h : Mirrors options created s d) :
    refusal (commit s writes) = some .conflict ↔
      ¬ PlainlyMalformed (standing options d) [] writes ∧
        ∃ w ∈ writes, ¬ Current (standing options d) w := by
  by_cases hplain : PlainlyMalformed (standing options d) [] writes
  · rw [commit_of_plainly h hplain]
    exact iff_of_false (fun h ↦ nomatch h) fun h ↦ h.1 hplain
  · by_cases hstale : ∃ w ∈ writes, ¬ Current (standing options d) w
    · rw [commit_of_stale h hplain hstale]
      exact iff_of_true rfl ⟨hplain, hstale⟩
    · have hcurrent : ∀ w ∈ writes, Current (standing options d) w := by simpa using hstale
      rw [commit_of_current h (wellFormed_of_current hplain hcurrent) hcurrent]
      exact iff_of_false (fun h ↦ nomatch h) fun h ↦ hstale h.2

theorem delete_conflicts (h : Mirrors options created s d) :
    refusal (delete s resource writes) = some .conflict ↔
      ¬ Current (standing options d) ⟨resource, resource.revision⟩ ∨
        ¬ PlainlyMalformed (standing options d) [] writes ∧
          ∃ w ∈ writes, ¬ Current (standing options d) w := by
  by_cases htarget : Current (standing options d) ⟨resource, resource.revision⟩
  · rw [delete_eq_of_current h htarget, ← commit_conflicts h, or_iff_right (not_not.mpr htarget)]
    cases commit s writes <;> rfl
  · rw [delete_of_stale h htarget]
    exact iff_of_true rfl (.inl htarget)

end SqliteAgentsStore

namespace DynamoAgentsStore

theorem step_of_error {op : StoreOp V} {e : AgentsStoreError}
    (h : (step options d op).1 = .error e) :
    (step options d op).2 = d := by
  cases op with
  | get key => rfl
  | list owner collection query => rfl
  | put resource n => exact settle_of_error h
  | commit writes => exact settle_of_error h
  | delete resource writes => exact settle_of_error h

/-- An error of the transaction itself, or one that no caller recognises. -/
theorem transact_error {items : List (TransactItem V)} {e : AgentsStoreError}
    (h : transact d items = .error e) : e = .resourceConflict ∨ e.kind = .failure := by
  rw [transact] at h
  split at h
  · cases h
    exact .inr rfl
  · split at h
    · cases h
      exact .inl rfl
    · cases h

theorem writeItems_error {e : AgentsStoreError} (h : writeItems options writes = .error e) :
    e.kind = .failure := by
  rw [writeItems] at h
  split at h
  · cases h
    rfl
  · split at h
    · cases h
      rfl
    · cases h

theorem commit_error {e : AgentsStoreError} (h : commit options d writes = .error e) :
    e = .resourceConflict ∨ e.kind = .failure := by
  rw [commit] at h
  split at h
  · cases h
  · cases hitems : writeItems options writes with
    | error e' =>
      rw [hitems] at h
      cases h
      exact .inr (writeItems_error hitems)
    | ok items =>
      rw [hitems] at h
      exact transact_error h

theorem delete_error {e : AgentsStoreError} (h : delete options d resource writes = .error e) :
    e = .resourceConflict ∨ e.kind = .failure := by
  rw [delete] at h
  split at h
  · cases h
    exact .inr rfl
  · cases hitems : writeItems options writes with
    | error e' =>
      rw [hitems] at h
      cases h
      exact .inr (writeItems_error hitems)
    | ok items =>
      rw [hitems] at h
      exact transact_error h

theorem refusal_eq_conflict {r : Except AgentsStoreError (DynamoTable V)}
    (h : ∀ e, r = .error e → e = .resourceConflict ∨ e.kind = .failure) :
    refusal r = some .conflict ↔ r = .error .resourceConflict := by
  cases r with
  | ok d' => exact iff_of_false (fun h ↦ nomatch h) fun h ↦ nomatch h
  | error e =>
    rcases h e rfl with rfl | hkind
    · exact iff_of_true rfl rfl
    · refine iff_of_false (fun h ↦ ?_) fun h ↦ ?_
      · rw [refusal, hkind] at h
        cases h
      · cases h
        cases hkind

end DynamoAgentsStore

/-- An operation on which the stores agree comes out in the same class of errors, unless it is
refused for a revision. -/
theorem sameClass_iff (h : Mirrors options created s d) {op : StoreOp V}
    (hsame : SameAnswer (SqliteAgentsStore.step s op).1 (DynamoAgentsStore.step options d op).1) :
    SameClass (SqliteAgentsStore.step s op).1 (DynamoAgentsStore.step options d op).1 ↔
      ¬ Conflicts (standing options d) op := by
  rw [SameClass, iff_false_left (SqliteAgentsStore.step_ne_resourceConflict op), not_iff_not]
  cases op with
  | get key => exact iff_of_false (fun h ↦ nomatch h) id
  | list owner collection query =>
    refine iff_of_false (fun h ↦ ?_) id
    rw [h] at hsame
    rw [SqliteAgentsStore.step, SqliteAgentsStore.list] at hsame
    cases hcursor : query.cursor? with
    | none =>
      rw [hcursor] at hsame
      exact hsame
    | some after =>
      rw [hcursor] at hsame
      dsimp only at hsame
      cases hget : SqliteAgentsStore.get s (owner, collection, after) with
      | none =>
        rw [hget] at hsame
        cases hsame
      | some resource =>
        rw [hget] at hsame
        exact hsame
  | put resource n =>
    have hrefusal : refusal (SqliteAgentsStore.commit s [⟨resource, n⟩]) =
        refusal (DynamoAgentsStore.commit options d [⟨resource, n⟩]) := sameAnswer_settle.mp hsame
    refine settle_eq_error.trans ((DynamoAgentsStore.refusal_eq_conflict
      fun e ↦ DynamoAgentsStore.commit_error).symm.trans ?_)
    refine (hrefusal ▸ SqliteAgentsStore.commit_conflicts h).trans (and_congr_right fun _ ↦ ?_)
    simp only [List.mem_singleton, exists_eq_left]
  | commit writes =>
    refine settle_eq_error.trans ?_
    rw [← DynamoAgentsStore.refusal_eq_conflict fun e ↦ DynamoAgentsStore.commit_error,
      ← sameAnswer_settle.mp hsame]
    exact SqliteAgentsStore.commit_conflicts h
  | delete resource writes =>
    refine settle_eq_error.trans ?_
    rw [← DynamoAgentsStore.refusal_eq_conflict fun e ↦ DynamoAgentsStore.delete_error,
      ← sameAnswer_settle.mp hsame]
    exact SqliteAgentsStore.delete_conflicts h

/-! ## Runs -/

/-- The stores agree on every operation, and nothing that is written expires at `0`. -/
def ComparableRun (options : DynamoAgentsStore.Options) (ops : List (StoreOp V)) : Prop :=
  ∀ earlier op later, ops = earlier ++ op :: later →
    Comparable (standing options (DynamoAgentsStore.after options earlier)) op ∧
      ∀ resource ∈ op.resources, resource.expiresAt ≠ some 0

theorem ComparableRun.earlier {earlier later : List (StoreOp V)}
    (h : ComparableRun options (earlier ++ later)) : ComparableRun options earlier := by
  rintro first op second rfl
  exact h first op (second ++ later) (by simp)

theorem comparableRun_nil : ComparableRun options ([] : List (StoreOp V)) := by
  intro earlier op later h
  simp at h

/-- A run goes on as long as the stores agree on the next operation. -/
theorem ComparableRun.concat {ops : List (StoreOp V)} (h : ComparableRun options ops)
    {op : StoreOp V} (hop : Comparable (standing options (DynamoAgentsStore.after options ops)) op)
    (hexpires : ∀ resource ∈ op.resources, resource.expiresAt ≠ some 0) :
    ComparableRun options (ops ++ [op]) := by
  intro earlier op' later heq
  rcases List.eq_nil_or_concat' later with rfl | ⟨init, last, rfl⟩
  · obtain ⟨rfl, hlast⟩ := List.append_inj' heq rfl
    obtain rfl := List.singleton_inj.mp hlast
    exact ⟨hop, hexpires⟩
  · rw [← List.cons_append, ← List.append_assoc] at heq
    exact h earlier op' init (List.append_inj' heq rfl).1

theorem mirrors_after (hhash : Digests options.hash) (hbound : ∀ key, created key < 10 ^ 16)
    {ops : List (StoreOp V)} (hregular : ∀ op ∈ ops, op.Regular created)
    (hcomparable : ComparableRun options ops) :
    Mirrors options created (SqliteAgentsStore.after ops)
      (DynamoAgentsStore.after options ops) := by
  induction ops using List.reverseRecOn with
  | nil => exact DynamoAgentsStore.mirrors_empty
  | append_singleton ops op ih =>
    have hop := hregular op (List.mem_append_right _ List.mem_cons_self)
    have hmirrors := ih (fun op hop ↦ hregular op (List.mem_append_left _ hop)) hcomparable.earlier
    obtain ⟨hlast, hexpires⟩ := hcomparable ops op [] rfl
    rw [SqliteAgentsStore.after, DynamoAgentsStore.after, List.foldl_append, List.foldl_append]
    exact mirrors_step hhash hbound hmirrors hop hexpires
      ((step_agrees hhash hbound hmirrors hop).mpr hlast)

/-- In a run of `Comparable` operations both stores give the same answers, and the next operation is
answered in the same way just if it is `Comparable` too, in the same class of errors just if it is
not refused for a revision. -/
theorem stores_agree (hhash : Digests options.hash) (hbound : ∀ key, created key < 10 ^ 16)
    {ops : List (StoreOp V)} (hregular : ∀ op ∈ ops, op.Regular created)
    (hcomparable : ComparableRun options ops) :
    (∀ earlier op later, ops = earlier ++ op :: later →
      SameAnswer (SqliteAgentsStore.step (SqliteAgentsStore.after earlier) op).1
        (DynamoAgentsStore.step options (DynamoAgentsStore.after options earlier) op).1) ∧
    ∀ s d, s = SqliteAgentsStore.after ops → d = DynamoAgentsStore.after options ops →
      ∀ op : StoreOp V, op.Regular created →
        (SameAnswer (SqliteAgentsStore.step s op).1 (DynamoAgentsStore.step options d op).1 ↔
          Comparable (standing options d) op) ∧
        (SameAnswer (SqliteAgentsStore.step s op).1 (DynamoAgentsStore.step options d op).1 ∧
            SameClass (SqliteAgentsStore.step s op).1 (DynamoAgentsStore.step options d op).1 ↔
          Comparable (standing options d) op ∧ ¬ Conflicts (standing options d) op) ∧
        (∀ e, (SqliteAgentsStore.step s op).1 = .error e → (SqliteAgentsStore.step s op).2 = s) ∧
        ∀ e, (DynamoAgentsStore.step options d op).1 = .error e →
          (DynamoAgentsStore.step options d op).2 = d := by
  constructor
  · -- The stores mirror each other after the operations before this one.
    rintro earlier op later rfl
    obtain ⟨hop, -⟩ := hcomparable earlier op later rfl
    refine (step_agrees hhash hbound ?_ (hregular op (by simp))).mpr hop
    exact mirrors_after hhash hbound (fun op hop ↦ hregular op (List.mem_append_left _ hop))
      hcomparable.earlier
  · rintro s d rfl rfl op hop
    have hmirrors := mirrors_after hhash hbound hregular hcomparable
    have hsame := step_agrees hhash hbound hmirrors hop
    refine ⟨hsame, ?_, fun e ↦ SqliteAgentsStore.step_of_error,
      fun e ↦ DynamoAgentsStore.step_of_error⟩
    rw [← hsame]
    exact and_congr_right (sameClass_iff hmirrors)

/-! ## An example

Changes, a deletion, a page that begins behind a cursor, and a stale change whose conflict is of
different classes. -/

def storedSample : AgentResource ℕ := ⟨"a", "owner", "agents", 7, 1, none, 0⟩

/-- DynamoDB remembers that the resource was deleted, and the local store does not. -/
theorem revival_differs : ¬ SameAnswer
    (SqliteAgentsStore.step
      (SqliteAgentsStore.after [.put storedSample 0, .delete storedSample []])
      (.put storedSample 0)).1
    (DynamoAgentsStore.step sampleStore
      (DynamoAgentsStore.after sampleStore [.put storedSample 0, .delete storedSample []])
      (.put storedSample 0)).1 := by
  have hlocal : (SqliteAgentsStore.step
      (SqliteAgentsStore.after [.put storedSample 0, .delete storedSample []])
      (.put storedSample 0)).1 = .ok .done := by decide
  have hdynamo : (DynamoAgentsStore.step sampleStore
      (DynamoAgentsStore.after sampleStore [.put storedSample 0, .delete storedSample []])
      (.put storedSample 0)).1 = .error .resourceConflict := by decide
  rw [hlocal, hdynamo]
  exact id

/-- Two resources are created, one is changed and the other deleted. -/
def agreedRun : List (StoreOp ℕ) :=
  [.put storedSample 0, .put { storedSample with id := "b" } 0,
    .put { storedSample with revision := 2, value := 1 } 1,
    .delete { storedSample with id := "b" } []]

/-- A page that begins behind the resource that is left. -/
def samplePage : StoreOp ℕ := .list "owner" "agents" ⟨some 1, true, some "a"⟩

/-- A change of the revision that the first change has replaced. -/
def staleChange : StoreOp ℕ := .put { storedSample with revision := 2, value := 2 } 1

/-- After the run both stores show the same page, and refuse the stale change: the local one with an
error of another class. -/
theorem stores_agree_sample :
    (∀ earlier op later, agreedRun = earlier ++ op :: later →
      SameAnswer (SqliteAgentsStore.step (SqliteAgentsStore.after earlier) op).1
        (DynamoAgentsStore.step sampleStore (DynamoAgentsStore.after sampleStore earlier) op).1) ∧
    SameAnswer (SqliteAgentsStore.step (SqliteAgentsStore.after agreedRun) samplePage).1
      (DynamoAgentsStore.step sampleStore (DynamoAgentsStore.after sampleStore agreedRun)
        samplePage).1 ∧
    SameAnswer (SqliteAgentsStore.step (SqliteAgentsStore.after agreedRun) staleChange).1
      (DynamoAgentsStore.step sampleStore (DynamoAgentsStore.after sampleStore agreedRun)
        staleChange).1 ∧
    ¬ SameClass (SqliteAgentsStore.step (SqliteAgentsStore.after agreedRun) staleChange).1
      (DynamoAgentsStore.step sampleStore (DynamoAgentsStore.after sampleStore agreedRun)
        staleChange).1 := by
  have hsize : ∀ op ∈ samplePage :: staleChange :: agreedRun, op.Regular fun _ ↦ 7 := by
    intro op hop
    simp only [List.mem_cons, agreedRun, samplePage, staleChange, List.not_mem_nil, or_false] at hop
    rcases hop with rfl | rfl | rfl | rfl | rfl | rfl
    all_goals
      refine ⟨by simp [StoreOp.resources, storedSample], ?_, by simp⟩
      rintro _ _ _ h
      cases h <;> decide
  have hrun : ComparableRun sampleStore agreedRun :=
    (((comparableRun_nil.concat (by decide) (by decide)).concat (by decide) (by decide)).concat
      (by decide) (by decide)).concat (by decide) (by decide)
  have hregular : ∀ op ∈ agreedRun, op.Regular fun _ ↦ 7 :=
    fun op hop ↦ hsize op (List.mem_cons_of_mem _ (List.mem_cons_of_mem _ hop))
  obtain ⟨hanswers, hnext⟩ := @stores_agree ℕ sampleStore (fun _ ↦ 7) digests_sample
    (fun _ ↦ by decide) _ hregular hrun
  have hpage := hnext _ _ rfl rfl samplePage (hsize _ (by simp))
  have hstale := hnext _ _ rfl rfl staleChange (hsize _ (by simp))
  have hsame := hstale.1.mpr (by decide)
  refine ⟨hanswers, hpage.1.mpr (by decide), hsame, fun hclass ↦ ?_⟩
  exact (hstale.2.1.mp ⟨hsame, hclass⟩).2 ⟨by decide, by decide⟩

end RatThings
