import RatThings.Stores.Listings
import RatThings.Stores.Transactions

/-!
# Transactions of the local store

A transaction of the local store looks at one write after the other, and stops at the first that is
malformed or names another revision than the current one; DynamoDB first rejects what is malformed,
and then everything whose conditions do not all hold. While the tables mirror each other, what the
local store finds is a matter of what DynamoDB knows of each resource: a malformed write is reported
just if the writes before it name current revisions.

So there are three outcomes of the loop over the writes, each with its own lemma: a write is
malformed behind current ones, a write names another revision before any malformed one, or all are
well formed and current.
-/

namespace RatThings

open Concurrent

variable {V : Type}

/-- A malformed write makes a transaction malformed, wherever it stands. -/
theorem not_wellFormed_of_plainly {standing : ResourceKey → Standing}
    {identities : List ResourceKey} {writes : List (ResourceWrite V)}
    (h : PlainlyMalformed standing identities writes) : ¬ WellFormed identities writes := by
  induction writes generalizing identities with
  | nil => exact h.elim
  | cons w writes ih =>
    rintro ⟨hw, hrest⟩
    exact h.elim hw fun hlater ↦ ih hlater.2 hrest

/-- Where every write names the current revision, a malformed one is found. -/
theorem wellFormed_of_current {standing : ResourceKey → Standing}
    {identities : List ResourceKey} {writes : List (ResourceWrite V)}
    (h : ¬ PlainlyMalformed standing identities writes)
    (hcurrent : ∀ w ∈ writes, Current standing w) :
    WellFormed identities writes := by
  induction writes generalizing identities with
  | nil => trivial
  | cons w writes ih =>
    obtain ⟨hw, hwrites⟩ := List.forall_mem_cons.mp hcurrent
    rw [PlainlyMalformed, not_or, not_and] at h
    exact ⟨h.1, ih (h.2 hw) hwrites⟩

namespace SqliteAgentsStore

open DynamoAgentsStore (standing)

variable {options : DynamoAgentsStore.Options} {created : ResourceKey → ℕ} {s : SqliteTable V}
  {d : DynamoTable V} {identities : List ResourceKey} {writes : List (ResourceWrite V)}

/-- A write that names another revision than the current one. -/
def conflict : AgentsStoreError :=
    .api ⟨409, "Resource changed concurrently.", some "conflict", none⟩

theorem expect_eq (h : Mirrors options created s d) (resource : AgentResource V) (revision : ℕ) :
    expect s resource revision =
      if (standing options d resource.key).revision = revision then .ok ()
      else .error conflict := by
  have hrevision : ((s.get? resource.key).map (·.revision)).getD 0 =
      (standing options d resource.key).revision := by
    rw [h.rows, standing]
    cases hroot : d.get? (DynamoAgentsStore.rootKey options resource.key) with
    | none =>
      rw [DynamoAgentsStore.get, hroot]
      rfl
    | some item =>
      rw [DynamoAgentsStore.get_of_root hroot]
      cases hdeleted : item.deleted <;>
        simp [hdeleted, Standing.revision, AgentResource.row, DynamoAgentsStore.hydrate]
  rw [expect, hrevision]
  by_cases hcurrent : (standing options d resource.key).revision = revision
  · rw [if_neg (not_not.mpr hcurrent), if_pos hcurrent]
    rfl
  · rw [if_pos hcurrent, if_neg hcurrent]
    rfl

theorem expect_of_current (h : Mirrors options created s d) {w : ResourceWrite V}
    (hcurrent : Current (standing options d) w) :
    expect s w.resource w.expectedRevision = .ok () := by
  rw [expect_eq h]
  exact if_pos hcurrent

theorem expect_of_stale (h : Mirrors options created s d) {w : ResourceWrite V}
    (hstale : ¬ Current (standing options d) w) :
    expect s w.resource w.expectedRevision = .error conflict := by
  rw [expect_eq h]
  exact if_neg hstale

theorem validateWrites_of_malformed {w : ResourceWrite V} (h : Malformed identities w) :
    validateWrites s identities (w :: writes) = .error (.error "Invalid local transaction.") := by
  rw [validateWrites]
  exact if_pos h

theorem validateWrites_cons {w : ResourceWrite V} (h : ¬ Malformed identities w) :
    validateWrites s identities (w :: writes) =
      (expect s w.resource w.expectedRevision).bind fun _ ↦
        validateWrites s (w.resource.key :: identities) writes := by
  rw [validateWrites]
  exact if_neg h

theorem validateWrites_of_plainly (h : Mirrors options created s d)
    (hmalformed : PlainlyMalformed (standing options d) identities writes) :
    validateWrites s identities writes = .error (.error "Invalid local transaction.") := by
  induction writes generalizing identities with
  | nil => exact hmalformed.elim
  | cons w writes ih =>
    by_cases hw : Malformed identities w
    · exact validateWrites_of_malformed hw
    · obtain ⟨hcurrent, hlater⟩ := hmalformed.resolve_left hw
      rw [validateWrites_cons hw, expect_of_current h hcurrent]
      exact ih hlater

theorem validateWrites_of_stale (h : Mirrors options created s d)
    (hplain : ¬ PlainlyMalformed (standing options d) identities writes)
    (hstale : ∃ w ∈ writes, ¬ Current (standing options d) w) :
    validateWrites s identities writes = .error conflict := by
  induction writes generalizing identities with
  | nil =>
    obtain ⟨w, hw, -⟩ := hstale
    cases hw
  | cons w writes ih =>
    rw [PlainlyMalformed, not_or, not_and] at hplain
    rw [validateWrites_cons hplain.1]
    by_cases hcurrent : Current (standing options d) w
    · rw [expect_of_current h hcurrent]
      refine ih (hplain.2 hcurrent) ?_
      obtain ⟨w', hw', hstale⟩ := hstale
      obtain rfl | hw' := List.mem_cons.mp hw'
      · exact absurd hcurrent hstale
      · exact ⟨w', hw', hstale⟩
    · rw [expect_of_stale h hcurrent]
      rfl

theorem validateWrites_of_current (h : Mirrors options created s d)
    (hwell : WellFormed identities writes)
    (hcurrent : ∀ w ∈ writes, Current (standing options d) w) :
    validateWrites s identities writes = .ok () := by
  induction writes generalizing identities with
  | nil => rfl
  | cons w writes ih =>
    obtain ⟨hw, hwrites⟩ := List.forall_mem_cons.mp hcurrent
    rw [validateWrites_cons hwell.1, expect_of_current h hw]
    exact ih hwell.2 hwrites

end SqliteAgentsStore

end RatThings
