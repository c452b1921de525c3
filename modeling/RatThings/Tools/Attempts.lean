import RatThings.Tools.Service

/-!
# Attempts to bind a Session to secrets

The status of an attempt decides what becomes of the secrets it names. While it is pending they are
its own; once it is adopted the Session is bound to them; and once it is being cleaned up nothing
can ever be bound to them again (`ToolWorld.Consistent.unbound`), so that whoever cleans up may
revoke them all. References are reserved per attempt, which is why the clean-up of one attempt never
meets the references of another.

## The step lemma

Every transaction of the service writes one attempt, and may bind the Session to it or unbind it.
`ToolWorld.Update` says what such a transaction has to be like, in terms of the state before and
after it, and the step lemma derives the invariant from that. For each transaction of the service
there is a lemma that it is an update: recording an intent, fencing an adoption, dropping an
attempt, adopting one, and closing.
-/

namespace RatThings

open Concurrent Service Setting

abbrev ToolWorld : Type := RecordWorld ToolKey ToolValue SecretHistory

def SessionToolAttempt.references (attempt : SessionToolAttempt) : List String :=
  inlineReferences attempt.bindings ++ environmentReferences attempt.environment

/-! ## Reserved references

A reference is made of its scope and the id of the attempt, and tells both. -/

section References

variable (reference : CredentialScope → String → String)

/-- The reference of a tool's credential in this attempt. -/
def OfTool (id r : String) : Prop := ∃ serverLabel, r = reference (.tool serverLabel) id

/-- The reference of one of the environment's credentials in this attempt. -/
def OfEnvironment (id r : String) : Prop :=
  ∃ environmentId, ∃ index : ℕ,
    r = reference (.environment environmentId) (id ++ ":" ++ toString index)

/-- What an attempt may name before it is cleaned up. -/
structure SessionToolAttempt.Reserved (id : String) (attempt : SessionToolAttempt) : Prop where
  tools : ∀ r ∈ inlineReferences attempt.bindings, OfTool reference id r
  environment : ∀ r ∈ environmentReferences attempt.environment, OfEnvironment reference id r

variable {reference} {id id' r : String}

/-- The number of a credential has no colon, so the attempt is what stands before the last one. -/
theorem eq_of_indexed {i j : ℕ} (h : id ++ ":" ++ toString i = id' ++ ":" ++ toString j) :
    id = id' := by
  have hno : ∀ n : ℕ, ':' ∉ (toString n).toList := by
    intro n hmem
    rw [Nat.toString_eq_ofList_toDigits, String.toList_ofList] at hmem
    have hdigit := Nat.isDigit_of_mem_toDigits (by decide) (by decide) hmem
    simp at hdigit
  have hlist : id.toList ++ ':' :: (toString i).toList =
      id'.toList ++ ':' :: (toString j).toList := by
    simpa [String.toList_append] using congrArg String.toList h
  rcases List.append_eq_append_iff.mp hlist with ⟨gap, hid, hrest⟩ | ⟨gap, hid, hrest⟩
  · cases gap with
    | nil => exact String.toList_inj.mp (by simpa using hid.symm)
    | cons c gap =>
      obtain ⟨-, hi⟩ := List.cons_eq_cons.mp hrest
      exact absurd (hi ▸ by simp) (hno i)
  · cases gap with
    | nil => exact String.toList_inj.mp (by simpa using hid)
    | cons c gap =>
      obtain ⟨-, hj⟩ := List.cons_eq_cons.mp hrest
      exact absurd (hj ▸ by simp) (hno j)

variable (hreference : Function.Injective2 reference)

include hreference

theorem OfTool.unique (h : OfTool reference id r) (h' : OfTool reference id' r) : id = id' := by
  obtain ⟨label, rfl⟩ := h
  obtain ⟨label', heq⟩ := h'
  exact (hreference heq).2

theorem OfEnvironment.unique (h : OfEnvironment reference id r)
    (h' : OfEnvironment reference id' r) : id = id' := by
  obtain ⟨environmentId, i, rfl⟩ := h
  obtain ⟨environmentId', j, heq⟩ := h'
  exact eq_of_indexed (hreference heq).2

theorem OfTool.not_environment (h : OfTool reference id r) : ¬ OfEnvironment reference id' r := by
  obtain ⟨label, rfl⟩ := h
  rintro ⟨environmentId, i, heq⟩
  cases (hreference heq).1

/-- Whatever kind of credential a reference stands for, it was reserved in one attempt. -/
theorem reserved_unique (h : OfTool reference id r ∨ OfEnvironment reference id r)
    (h' : OfTool reference id' r ∨ OfEnvironment reference id' r) : id = id' := by
  rcases h with h | h <;> rcases h' with h' | h'
  · exact h.unique hreference h'
  · exact absurd h' (h.not_environment hreference)
  · exact absurd h (h'.not_environment hreference)
  · exact h.unique hreference h'

end References

/-! ## The invariant

`Covered` is what is meant by not losing a secret: it is bound, or revoked, or awaited by an attempt
that is recorded. -/

/-- How the record of an attempt changes. -/
structure AttemptMoves (old new : Versioned (Kept SessionToolAttempt)) : Prop where
  bindings : new.value.value.bindings = old.value.value.bindings
  environment : new.value.value.environment = old.value.value.environment
  status : old.value.value.status ≠ .pending → new.value.value.status = old.value.value.status
  deleted : old.value.deleted = true → new.value.deleted = true

theorem AttemptMoves.refl (record : Versioned (Kept SessionToolAttempt)) :
    AttemptMoves record record := ⟨rfl, rfl, fun _ ↦ rfl, fun h ↦ h⟩

theorem AttemptMoves.trans {a b c : Versioned (Kept SessionToolAttempt)} (h : AttemptMoves a b)
    (h' : AttemptMoves b c) : AttemptMoves a c := by
  refine ⟨h'.bindings.trans h.bindings, h'.environment.trans h.environment, fun hne ↦ ?_,
    fun hdeleted ↦ h'.deleted (h.deleted hdeleted)⟩
  have hb : b.value.value.status = a.value.value.status := h.status hne
  exact (h'.status (hb ▸ hne)).trans hb

theorem AttemptMoves.references {old new : Versioned (Kept SessionToolAttempt)}
    (h : AttemptMoves old new) : new.value.value.references = old.value.value.references := by
  rw [SessionToolAttempt.references, SessionToolAttempt.references, h.bindings, h.environment]

theorem liveRecord_eq_some {α : Type} {slot : Slot (Kept α)} {record : Versioned α} :
    liveRecord slot = some record ↔ slot = some ⟨record.revision, ⟨record.value, false⟩⟩ := by
  rcases slot with _ | ⟨revision, value, deleted⟩
  · simp [liveRecord]
  · cases deleted <;> cases record <;> simp [liveRecord]

namespace ToolWorld

/-- The record of an attempt, deleted or not. -/
def attempt? (w : ToolWorld) (id : String) : Slot (Kept SessionToolAttempt) :=
  w.records (.attempt id)

def BoundTool (w : ToolWorld) (r : String) : Prop :=
  ∃ bindings, liveRecord (w.records .tools) = some bindings ∧ r ∈ inlineReferences bindings.value

def BoundEnvironment (w : ToolWorld) (r : String) : Prop :=
  ∃ environment, liveRecord (w.records .environment) = some environment ∧
    r ∈ environment.value.references

/-- The Session's credentials name the reference. -/
def Bound (w : ToolWorld) (r : String) : Prop := w.BoundTool r ∨ w.BoundEnvironment r

/-- A recorded attempt, which was not adopted, names the reference. -/
def Awaits (w : ToolWorld) (id r : String) : Prop :=
  ∃ record, w.attempt? id = some record ∧ record.value.deleted = false ∧
    record.value.value.status ≠ .adopted ∧ r ∈ record.value.value.references

def Covered (w : ToolWorld) (r : String) : Prop :=
  w.Bound r ∨ r ∈ w.ghost.revoked ∨ ∃ id, w.Awaits id r

def Named (w : ToolWorld) (r : String) : Prop :=
  ∃ id record, w.attempt? id = some record ∧ r ∈ record.value.value.references

/-- The attempt was adopted. -/
def Adopted (w : ToolWorld) (id : String) : Prop :=
  ∃ record, w.attempt? id = some record ∧ record.value.value.status = .adopted

variable (reference : CredentialScope → String → String)

structure Consistent (w : ToolWorld) : Prop where
  numbered : w.records.Numbered
  pending : ∀ id record, w.attempt? id = some record → record.value.value.status = .pending →
    record.revision = 1 ∧ record.value.deleted = false
  reserved : ∀ id record, w.attempt? id = some record → record.value.value.status ≠ .cleanup →
    record.value.value.Reserved reference id
  tools : ∀ r, w.BoundTool r → ∃ id, w.Adopted id ∧ OfTool reference id r
  environment : ∀ r, w.BoundEnvironment r → ∃ id, w.Adopted id ∧ OfEnvironment reference id r
  /-- What is being cleaned up was reserved by the attempt itself, or by one that was adopted. -/
  cleanup : ∀ id record, w.attempt? id = some record → record.value.value.status = .cleanup →
    ∀ r ∈ record.value.value.references, ∃ id', (id' = id ∨ w.Adopted id') ∧
      (OfTool reference id' r ∨ OfEnvironment reference id' r)
  unbound : ∀ id record, w.attempt? id = some record → record.value.value.status = .cleanup →
    ∀ r ∈ record.value.value.references, ¬ w.Bound r
  revoked : ∀ r ∈ w.ghost.revoked, ∃ id record, w.attempt? id = some record ∧
    record.value.value.status = .cleanup ∧ r ∈ record.value.value.references
  cleaned : ∀ id record, w.attempt? id = some record → record.value.value.status = .cleanup →
    record.value.deleted = true → ∀ r ∈ record.value.value.references, r ∈ w.ghost.revoked
  covered : ∀ r, w.Named r → w.Covered r
  requested : ∀ r ∈ w.ghost.requested, w.Named r
  created : ∀ r ∈ w.ghost.created, r ∈ w.ghost.requested

/-- `w'` came after `w`. -/
structure Since (w w' : ToolWorld) : Prop where
  records : ∀ k, (w.records k).Precedes (w'.records k)
  attempts : ∀ id record, w.attempt? id = some record →
    ∃ record', w'.attempt? id = some record' ∧ AttemptMoves record record'
  revoked : w.ghost.revoked ⊆ w'.ghost.revoked

theorem Since.refl (w : ToolWorld) : w.Since w :=
  ⟨fun _ ↦ .refl _, fun _ record h ↦ ⟨record, h, .refl record⟩, List.Subset.refl _⟩

theorem Since.trans {a b c : ToolWorld} (h : a.Since b) (h' : b.Since c) : a.Since c := by
  refine ⟨fun k ↦ (h.records k).trans (h'.records k), fun id record hrecord ↦ ?_,
    List.Subset.trans h.revoked h'.revoked⟩
  obtain ⟨record₁, hrecord₁, hmoves₁⟩ := h.attempts id record hrecord
  obtain ⟨record₂, hrecord₂, hmoves₂⟩ := h'.attempts id record₁ hrecord₁
  exact ⟨record₂, hrecord₂, hmoves₁.trans hmoves₂⟩

variable {reference} {w w' : ToolWorld} {id r : String}
  {new : Versioned (Kept SessionToolAttempt)}

theorem Adopted.since (h : w.Adopted id) (hs : w.Since w') : w'.Adopted id := by
  obtain ⟨record, hrecord, hstatus⟩ := h
  obtain ⟨record', hrecord', hmoves⟩ := hs.attempts id record hrecord
  refine ⟨record', hrecord', (hmoves.status ?_).trans hstatus⟩
  rw [hstatus]
  exact AttemptStatus.noConfusion

theorem Named.since (h : w.Named r) (hs : w.Since w') : w'.Named r := by
  obtain ⟨id, record, hrecord, hmem⟩ := h
  obtain ⟨record', hrecord', hmoves⟩ := hs.attempts id record hrecord
  exact ⟨id, record', hrecord', hmoves.references ▸ hmem⟩

/-! ## Transactions -/

/-- A transaction that writes one attempt, and may bind the Session to it or unbind it. -/
structure Update (reference : CredentialScope → String → String) (id : String)
    (new : Versioned (Kept SessionToolAttempt)) (w w' : ToolWorld) : Prop where
  numbered : w'.records.Numbered
  records : ∀ k, (w.records k).Precedes (w'.records k)
  ghost : w'.ghost = w.ghost
  written : w'.attempt? id = some new
  others : ∀ id', id' ≠ id → w'.attempt? id' = w.attempt? id'
  moves : ∀ old, w.attempt? id = some old → AttemptMoves old new
  pending : new.value.value.status = .pending → new.revision = 1 ∧ new.value.deleted = false
  reserved : new.value.value.status ≠ .cleanup → new.value.value.Reserved reference id
  /-- Only an adoption binds anything. -/
  tools : ∀ r, w'.BoundTool r → w.BoundTool r ∨
    (¬ w.Adopted id ∧ new.value.value.status = .adopted ∧ OfTool reference id r)
  environment : ∀ r, w'.BoundEnvironment r → w.BoundEnvironment r ∨
    (¬ w.Adopted id ∧ new.value.value.status = .adopted ∧ OfEnvironment reference id r)
  cleanup : new.value.value.status = .cleanup → ∀ r ∈ new.value.value.references,
    ¬ w'.Bound r ∧ ∃ id', (id' = id ∨ w.Adopted id') ∧
      (OfTool reference id' r ∨ OfEnvironment reference id' r)
  cleaned : new.value.value.status = .cleanup → new.value.deleted = true →
    ∀ r ∈ new.value.value.references, r ∈ w.ghost.revoked
  covered : ∀ r, w.Covered r ∨ r ∈ new.value.value.references → w'.Covered r

namespace Update

variable (hu : w.Update reference id new w')

include hu

theorem since : w.Since w' := by
  refine ⟨hu.records, fun id' record hrecord ↦ ?_, hu.ghost ▸ List.Subset.refl _⟩
  by_cases hid : id' = id
  · subst hid
    exact ⟨new, hu.written, hu.moves record hrecord⟩
  · exact ⟨record, (hu.others id' hid).trans hrecord, .refl record⟩

/-- What is recorded afterwards was recorded before, or is what was written. -/
theorem recorded {id' : String} {record : Versioned (Kept SessionToolAttempt)}
    (hrecord : w'.attempt? id' = some record) :
    (id' = id ∧ record = new) ∨ (id' ≠ id ∧ w.attempt? id' = some record) := by
  by_cases hid : id' = id
  · subst hid
    rw [hu.written] at hrecord
    exact .inl ⟨rfl, (Option.some.inj hrecord).symm⟩
  · exact .inr ⟨hid, (hu.others id' hid).symm.trans hrecord⟩

/-- What is bound afterwards was bound before, or is bound by this adoption. -/
theorem bound (hb : w'.Bound r) : w.Bound r ∨ (¬ w.Adopted id ∧
    new.value.value.status = .adopted ∧
      (OfTool reference id r ∨ OfEnvironment reference id r)) := by
  rcases hb with hb | hb
  · rcases hu.tools r hb with hb | ⟨hadopted, hstatus, hof⟩
    · exact .inl (.inl hb)
    · exact .inr ⟨hadopted, hstatus, .inl hof⟩
  · rcases hu.environment r hb with hb | ⟨hadopted, hstatus, hof⟩
    · exact .inl (.inr hb)
    · exact .inr ⟨hadopted, hstatus, .inr hof⟩

theorem adopted (hstatus : new.value.value.status = .adopted) : w'.Adopted id :=
  ⟨new, hu.written, hstatus⟩

/-- **The step lemma.** -/
theorem consistent (hreference : Function.Injective2 reference) (h : Consistent reference w) :
    Consistent reference w' := by
  have hsince := hu.since
  have hkept : ∀ {id'}, w.Adopted id' → w'.Adopted id' := fun hadopted ↦ hadopted.since hsince
  refine ⟨hu.numbered, fun id' record hrecord ↦ ?_, fun id' record hrecord ↦ ?_, fun r hb ↦ ?_,
    fun r hb ↦ ?_, fun id' record hrecord hstatus r hr ↦ ?_,
    fun id' record hrecord hstatus r hr hb ↦ ?_, fun r hr ↦ ?_,
    fun id' record hrecord hstatus hdeleted r hr ↦ ?_, fun r hnamed ↦ ?_, fun r hr ↦ ?_, ?_⟩
  · rcases hu.recorded hrecord with ⟨rfl, rfl⟩ | ⟨-, hbefore⟩
    · exact hu.pending
    · exact h.pending id' record hbefore
  · rcases hu.recorded hrecord with ⟨rfl, rfl⟩ | ⟨-, hbefore⟩
    · exact hu.reserved
    · exact h.reserved id' record hbefore
  · rcases hu.tools r hb with hb | ⟨-, hstatus, hof⟩
    · obtain ⟨id', hadopted, hof⟩ := h.tools r hb
      exact ⟨id', hkept hadopted, hof⟩
    · exact ⟨id, hu.adopted hstatus, hof⟩
  · rcases hu.environment r hb with hb | ⟨-, hstatus, hof⟩
    · obtain ⟨id', hadopted, hof⟩ := h.environment r hb
      exact ⟨id', hkept hadopted, hof⟩
    · exact ⟨id, hu.adopted hstatus, hof⟩
  · have hsource : ∃ id'', (id'' = id' ∨ w.Adopted id'') ∧
        (OfTool reference id'' r ∨ OfEnvironment reference id'' r) := by
      rcases hu.recorded hrecord with ⟨rfl, rfl⟩ | ⟨-, hbefore⟩
      · exact (hu.cleanup hstatus r hr).2
      · exact h.cleanup id' record hbefore hstatus r hr
    obtain ⟨id'', hid, hof⟩ := hsource
    exact ⟨id'', hid.imp_right hkept, hof⟩
  · rcases hu.recorded hrecord with ⟨rfl, rfl⟩ | ⟨hid, hbefore⟩
    · exact (hu.cleanup hstatus r hr).1 hb
    · rcases hu.bound hb with hb | ⟨hnot, -, hof⟩
      · exact h.unbound id' record hbefore hstatus r hr hb
      · -- The attempt that is adopted now is neither this one nor one that was adopted before.
        obtain ⟨id'', hsource, hof'⟩ := h.cleanup id' record hbefore hstatus r hr
        obtain rfl := reserved_unique hreference hof hof'
        rcases hsource with rfl | hadopted
        · exact hid rfl
        · exact hnot hadopted
  · rw [hu.ghost] at hr
    obtain ⟨id', record, hrecord, hstatus, hmem⟩ := h.revoked r hr
    obtain ⟨record', hrecord', hmoves⟩ := hsince.attempts id' record hrecord
    refine ⟨id', record', hrecord', (hmoves.status ?_).trans hstatus, hmoves.references ▸ hmem⟩
    rw [hstatus]
    exact AttemptStatus.noConfusion
  · rw [hu.ghost]
    rcases hu.recorded hrecord with ⟨rfl, rfl⟩ | ⟨-, hbefore⟩
    · exact hu.cleaned hstatus hdeleted r hr
    · exact h.cleaned id' record hbefore hstatus hdeleted r hr
  · obtain ⟨id', record, hrecord, hmem⟩ := hnamed
    rcases hu.recorded hrecord with ⟨rfl, rfl⟩ | ⟨-, hbefore⟩
    · exact hu.covered r (.inr hmem)
    · exact hu.covered r (.inl (h.covered r ⟨id', record, hbefore, hmem⟩))
  · rw [hu.ghost] at hr
    exact (h.requested r hr).since hsince
  · rw [hu.ghost]
    exact h.created

end Update

section

variable {st : Store ToolKey ToolValue} {ws : List (Write ToolKey ToolValue)}
  {value : SessionToolAttempt} {revision : ℕ} {deleted : Bool}

theorem boundTool_congr (h : w'.records .tools = w.records .tools) :
    w'.BoundTool r ↔ w.BoundTool r := by
  rw [BoundTool, BoundTool, h]

theorem boundEnvironment_congr (h : w'.records .environment = w.records .environment) :
    w'.BoundEnvironment r ↔ w.BoundEnvironment r := by
  rw [BoundEnvironment, BoundEnvironment, h]

theorem boundTool_iff {bindings : List SessionMcpBinding}
    (h : w.records .tools = some ⟨revision, ⟨bindings, false⟩⟩) :
    w.BoundTool r ↔ r ∈ inlineReferences bindings := by
  rw [BoundTool, h]
  simp [liveRecord]

theorem boundEnvironment_iff {environment : SessionEnvironmentCredentialBinding}
    (h : w.records .environment = some ⟨revision, ⟨environment, false⟩⟩) :
    w.BoundEnvironment r ↔ r ∈ environment.references := by
  rw [BoundEnvironment, h]
  simp [liveRecord]

/-- What is awaited by another attempt is still awaited. -/
theorem Awaits.of_others {id' : String} (hothers : w'.attempt? id' = w.attempt? id')
    (h : w.Awaits id' r) : w'.Awaits id' r := by
  rwa [Awaits, hothers]

/-- A transaction that writes nothing but this attempt. -/
theorem update_of_attempt (hw : Consistent reference w)
    (hst : w.records.commit [⟨.attempt id, revision, some ⟨value, deleted⟩⟩] = some st)
    (hmoves : ∀ old, w.attempt? id = some old →
      AttemptMoves old ⟨revision + 1, ⟨value, deleted⟩⟩)
    (hpending : value.status = .pending → revision = 0 ∧ deleted = false)
    (hreserved : value.status ≠ .cleanup → value.Reserved reference id)
    (hcleanup : value.status = .cleanup → ∀ r ∈ value.references, ¬ w.Bound r ∧
      ∃ id', (id' = id ∨ w.Adopted id') ∧ (OfTool reference id' r ∨ OfEnvironment reference id' r))
    (hcleaned : value.status = .cleanup → deleted = true → ∀ r ∈ value.references,
      r ∈ w.ghost.revoked)
    (hlast : (deleted = false ∧ value.status ≠ .adopted) ∨ w.Adopted id ∨
      ∀ r ∈ value.references, r ∈ w.ghost.revoked) :
    w.Update reference id ⟨revision + 1, ⟨value, deleted⟩⟩ ⟨st, w.ghost⟩ := by
  have hwritten : attempt? ⟨st, w.ghost⟩ id =
      some ⟨revision + 1, ⟨value, deleted⟩⟩ := by
    obtain ⟨-, rfl⟩ := Store.commit_singleton.mp hst
    exact Store.apply_self w.records ⟨.attempt id, revision, some ⟨value, deleted⟩⟩
  have hothers : ∀ id', id' ≠ id → st (.attempt id') = w.records (.attempt id') :=
    fun id' hid ↦ Store.commit_frame hst (by simpa using hid)
  have htools : st .tools = w.records .tools := Store.commit_frame hst (by simp)
  have henvironment : st .environment = w.records .environment := Store.commit_frame hst (by simp)
  have hbound : ∀ r, Bound ⟨st, w.ghost⟩ r ↔ w.Bound r := fun r ↦
    or_congr (boundTool_congr htools) (boundEnvironment_congr henvironment)
  refine ⟨Store.numbered_of_commit hw.numbered hst, Store.precedes_of_commit hst (by simp), rfl,
    hwritten, hothers, hmoves, fun h ↦ ?_, hreserved,
      fun r hb ↦ .inl ((boundTool_congr htools).mp hb),
    fun r hb ↦ .inl ((boundEnvironment_congr henvironment).mp hb), fun h r hr ↦ ?_, hcleaned,
    fun r hr ↦ ?_⟩
  · obtain ⟨rfl, hdeleted⟩ := hpending h
    exact ⟨rfl, hdeleted⟩
  · rw [hbound]
    exact hcleanup h r hr
  · have hcovered : w.Covered r ∨ w.attempt? id = none := by
      rcases hr with hr | hr
      · exact .inl hr
      · cases hold : w.attempt? id with
        | none => exact .inr rfl
        | some old =>
          have hrefs := (hmoves old hold).references
          exact .inl (hw.covered r ⟨id, old, hold, hrefs ▸ hr⟩)
    -- The new record covers the reference, if it is a live one.
    have hnew : r ∈ value.references → deleted = false ∧ value.status ≠ .adopted →
        Covered ⟨st, w.ghost⟩ r :=
      fun hmem hlive ↦ .inr (.inr ⟨id, _, hwritten, hlive.1, hlive.2, hmem⟩)
    have hmem : ∀ id', w.Awaits id' r → id' = id → r ∈ value.references := by
      rintro id' ⟨old, hold, -, -, hmem⟩ rfl
      exact (hmoves old hold).references ▸ hmem
    -- A reference of the attempt is covered by what became of it, another one as before.
    by_cases hcase : r ∈ value.references
    · rcases hlast with hlive | hadopted | hrevoked
      · exact hnew hcase hlive
      · rcases hcovered with (hb | hrevoked | ⟨id', hawaits⟩) | hnone
        · exact .inl ((hbound r).mpr hb)
        · exact .inr (.inl hrevoked)
        · have hid : id' ≠ id := by
            rintro rfl
            obtain ⟨old, hold, hstatus⟩ := hadopted
            obtain ⟨old', hold', -, hne, -⟩ := hawaits
            obtain rfl := Option.some.inj (hold.symm.trans hold')
            exact hne hstatus
          exact .inr (.inr ⟨id', hawaits.of_others (hothers id' hid)⟩)
        · obtain ⟨old, hold, -⟩ := hadopted
          rw [hnone] at hold
          cases hold
      · exact .inr (.inl (hrevoked r hcase))
    · rcases hr.resolve_right hcase with hb | hrevoked | ⟨id', hawaits⟩
      · exact .inl ((hbound r).mpr hb)
      · exact .inr (.inl hrevoked)
      · have hid : id' ≠ id := fun hid ↦ hcase (hmem id' hawaits hid)
        exact .inr (.inr ⟨id', hawaits.of_others (hothers id' hid)⟩)

theorem update_of_intent (hw : Consistent reference w)
    (hst : w.records.commit [⟨.attempt id, 0, some ⟨value, false⟩⟩] = some st)
    (hpending : value.status = .pending) (hreserved : value.Reserved reference id) :
    w.Update reference id ⟨1, ⟨value, false⟩⟩ ⟨st, w.ghost⟩ := by
  let intent : Write ToolKey ToolValue := ⟨.attempt id, 0, some ⟨value, false⟩⟩
  have hnone : w.attempt? id = none :=
    Store.eq_none_of_commit hw.numbered hst (w := intent) (List.mem_singleton.mpr rfl) rfl
  refine update_of_attempt hw hst (fun old hold ↦ ?_) (fun _ ↦ ⟨rfl, rfl⟩) (fun _ ↦ hreserved)
    (fun h ↦ ?_) (fun h ↦ ?_) (.inl ⟨rfl, ?_⟩)
  · rw [hnone] at hold
    cases hold
  all_goals simp [hpending] at *

/-- From now on the attempt cannot be adopted. -/
theorem update_of_fence (hreference : Function.Injective2 reference) (hw : Consistent reference w)
    (hst : w.records.commit
      [⟨.attempt id, revision, some ⟨{ value with status := .cleanup }, false⟩⟩] = some st)
    (hfound : w.attempt? id = some ⟨revision, ⟨value, false⟩⟩)
    (hpending : value.status = .pending) :
    w.Update reference id ⟨revision + 1, ⟨{ value with status := .cleanup }, false⟩⟩
      ⟨st, w.ghost⟩ := by
  have hreserved : value.Reserved reference id :=
    hw.reserved id _ hfound (by rw [hpending]; exact AttemptStatus.noConfusion)
  have hof : ∀ r ∈ value.references, OfTool reference id r ∨ OfEnvironment reference id r :=
    fun r hr ↦ (List.mem_append.mp hr).imp (hreserved.tools r) (hreserved.environment r)
  refine update_of_attempt hw hst (fun old hold ↦ ?_) (fun h ↦ by cases h) (fun h ↦ absurd rfl h)
    (fun _ r hr ↦ ⟨fun hb ↦ ?_, id, .inl rfl, hof r hr⟩) (fun _ h ↦ by cases h)
    (.inl ⟨rfl, AttemptStatus.noConfusion⟩)
  · obtain rfl := Option.some.inj (hfound.symm.trans hold)
    exact ⟨rfl, rfl, fun hne ↦ absurd hpending hne, fun h ↦ h⟩
  · -- Whatever is bound was reserved by an adopted attempt, and this one is pending.
    have hbound : ∃ id', w.Adopted id' ∧
        (OfTool reference id' r ∨ OfEnvironment reference id' r) := by
      rcases hb with hb | hb
      · exact (hw.tools r hb).imp fun _ ↦ And.imp_right .inl
      · exact (hw.environment r hb).imp fun _ ↦ And.imp_right .inr
    obtain ⟨id', ⟨record, hrecord, hadopted⟩, hof'⟩ := hbound
    obtain rfl := reserved_unique hreference (hof r hr) hof'
    obtain rfl := Option.some.inj (hfound.symm.trans hrecord)
    rw [hpending] at hadopted
    cases hadopted

/-- The record of an attempt is dropped once it has been adopted, or all of it revoked. -/
theorem update_of_drop (hw : Consistent reference w)
    (hst : w.records.commit [⟨.attempt id, revision, some ⟨value, true⟩⟩] = some st)
    (hfound : w.attempt? id = some ⟨revision, ⟨value, false⟩⟩)
    (hdone : value.status = .adopted ∨
      value.status = .cleanup ∧ ∀ r ∈ value.references, r ∈ w.ghost.revoked) :
    w.Update reference id ⟨revision + 1, ⟨value, true⟩⟩ ⟨st, w.ghost⟩ := by
  refine update_of_attempt hw hst (fun old hold ↦ ?_) (fun h ↦ ?_) (fun h ↦ ?_)
    (fun h r hr ↦ ?_) (fun h _ ↦ ?_) ?_
  · obtain rfl := Option.some.inj (hfound.symm.trans hold)
    exact ⟨rfl, rfl, fun _ ↦ rfl, fun _ ↦ rfl⟩
  · rcases hdone with hdone | ⟨hdone, -⟩ <;> rw [hdone] at h <;> cases h
  · exact hw.reserved id _ hfound h
  · exact ⟨hw.unbound id _ hfound h r hr, hw.cleanup id _ hfound h r hr⟩
  · rcases hdone with hdone | ⟨-, hrevoked⟩
    · rw [hdone] at h
      cases h
    · exact hrevoked
  · rcases hdone with hdone | ⟨-, hrevoked⟩
    · exact .inr (.inl ⟨_, hfound, hdone⟩)
    · exact .inr (.inr hrevoked)

/-- The Session is unbound from what the clean-up names. -/
theorem update_of_unbinding {k : ToolKey} {resource : Versioned k.Payload}
    (hw : Consistent reference w)
    (hst : w.records.commit [tombstone resource, ⟨.attempt id, 0, some ⟨value, false⟩⟩] = some st)
    (hk : ∀ id', k ≠ .attempt id') (hstatus : value.status = .cleanup)
    (htools : ∀ r, BoundTool ⟨st, w.ghost⟩ r → w.BoundTool r)
    (henvironment : ∀ r, BoundEnvironment ⟨st, w.ghost⟩ r → w.BoundEnvironment r)
    (hleft : ∀ r, w.Bound r → Bound ⟨st, w.ghost⟩ r ∨ r ∈ value.references)
    (hnamed : ∀ r ∈ value.references, w.Bound r ∧ ¬ Bound ⟨st, w.ghost⟩ r) :
    w.Update reference id ⟨1, ⟨value, false⟩⟩ ⟨st, w.ghost⟩ := by
  let written : Write ToolKey ToolValue := ⟨.attempt id, 0, some ⟨value, false⟩⟩
  -- The attempt is created by this commit.
  have hnone : w.attempt? id = none :=
    Store.eq_none_of_commit hw.numbered hst (w := written) (by simp [written]) rfl
  have hwritten : attempt? ⟨st, w.ghost⟩ id = some ⟨1, ⟨value, false⟩⟩ := by
    refine Store.commit_written hst (w := written) (by simp [written]) fun w' hw' hkey ↦ ?_
    rcases List.mem_cons.mp hw' with rfl | hw'
    · exact absurd hkey (hk id)
    · simpa using hw'
  have hothers : ∀ id', id' ≠ id → st (.attempt id') = w.records (.attempt id') := by
    refine fun id' hid ↦ Store.commit_frame hst fun w' hw' ↦ ?_
    rcases List.mem_cons.mp hw' with rfl | hw'
    · exact (hk id').symm
    · rw [List.mem_singleton.mp hw']
      simpa using hid
  refine ⟨Store.numbered_of_commit hw.numbered hst,
    Store.precedes_of_commit hst (by simp [tombstone]), rfl, hwritten, hothers, fun old hold ↦ ?_,
    fun h ↦ ⟨rfl, rfl⟩, fun h ↦ absurd hstatus h, fun r hb ↦ .inl (htools r hb),
    fun r hb ↦ .inl (henvironment r hb), fun _ r hr ↦ ?_, fun _ h ↦ (by cases h), fun r hr ↦ ?_⟩
  · rw [hnone] at hold
    cases hold
  · refine ⟨(hnamed r hr).2, ?_⟩
    rcases (hnamed r hr).1 with hb | hb
    · obtain ⟨id', hadopted, hof⟩ := hw.tools r hb
      exact ⟨id', .inr hadopted, .inl hof⟩
    · obtain ⟨id', hadopted, hof⟩ := hw.environment r hb
      exact ⟨id', .inr hadopted, .inr hof⟩
  · have hnew : r ∈ value.references → Covered ⟨st, w.ghost⟩ r := fun hmem ↦
      .inr (.inr ⟨id, _, hwritten, rfl, by rw [hstatus]; exact AttemptStatus.noConfusion, hmem⟩)
    rcases hr with (hb | hrevoked | ⟨id', hawaits⟩) | hmem
    · exact (hleft r hb).elim .inl hnew
    · exact .inr (.inl hrevoked)
    · have hid : id' ≠ id := by
        rintro rfl
        obtain ⟨old, hold, -⟩ := hawaits
        rw [hnone] at hold
        cases hold
      exact .inr (.inr ⟨id', hawaits.of_others (hothers id' hid)⟩)
    · exact hnew hmem

/-- A record that was found as it was read. -/
theorem found_of_commit {k : ToolKey} {record : Versioned k.Payload} {value' : Option (ToolValue k)}
    (hst : w.records.commit ws = some st) (hw : ⟨k, record.revision, value'⟩ ∈ ws)
    (hseen : Slot.Precedes (some ⟨record.revision, ⟨record.value, false⟩⟩) (w.records k)) :
    w.records k = some ⟨record.revision, ⟨record.value, false⟩⟩ :=
  Store.commit_of_seen hst hw rfl hseen

theorem update_of_closing_tools {resource : Versioned (List SessionMcpBinding)} {deadline : ℕ}
    (hreference : Function.Injective2 reference) (hw : Consistent reference w)
    (hst : w.records.commit [tombstone (k := .tools) resource,
      ⟨.attempt id, 0, some ⟨⟨resource.value, none, .cleanup, deadline⟩, false⟩⟩] = some st)
    (hseen : Slot.Precedes (some ⟨resource.revision, ⟨resource.value, false⟩⟩)
      (w.records .tools)) :
    w.Update reference id ⟨1, ⟨⟨resource.value, none, .cleanup, deadline⟩, false⟩⟩
      ⟨st, w.ghost⟩ := by
  have hfound : w.records .tools = some ⟨resource.revision, ⟨resource.value, false⟩⟩ :=
    found_of_commit (k := .tools) hst List.mem_cons_self hseen
  have hdeleted : st .tools = some ⟨resource.revision + 1, ⟨resource.value, true⟩⟩ :=
    Store.commit_written hst (w := tombstone (k := .tools) resource) List.mem_cons_self
      (by simp [tombstone])
  have henvironment : st .environment = w.records .environment :=
    Store.commit_frame hst (by simp [tombstone])
  have hnone : ∀ r, ¬ BoundTool ⟨st, w.ghost⟩ r := by
    rintro r ⟨bindings, hlive, -⟩
    have hgone := (liveRecord_eq_some.mp hlive).symm.trans hdeleted
    simp at hgone
  have hbound : ∀ r, w.BoundTool r ↔ r ∈ inlineReferences resource.value :=
    fun r ↦ boundTool_iff hfound
  refine update_of_unbinding (k := .tools) hw hst (fun _ ↦ ToolKey.noConfusion) rfl
    (fun r hb ↦ absurd hb (hnone r)) (fun r ↦ (boundEnvironment_congr henvironment).mp)
    (fun r hb ↦ ?_) fun r hr ↦ ?_
  · rcases hb with hb | hb
    · exact .inr (List.mem_append_left _ ((hbound r).mp hb))
    · exact .inl (.inr ((boundEnvironment_congr henvironment).mpr hb))
  · have hmem : r ∈ inlineReferences resource.value := by
      simpa [SessionToolAttempt.references, environmentReferences] using hr
    have hb := (hbound r).mpr hmem
    refine ⟨.inl hb, fun hb' ↦ hb'.elim (hnone r) fun hb' ↦ ?_⟩
    obtain ⟨id₁, -, hof⟩ := hw.tools r hb
    obtain ⟨id₂, -, hof'⟩ := hw.environment r ((boundEnvironment_congr henvironment).mp hb')
    exact hof.not_environment hreference hof'

theorem update_of_closing_environment
    {resource : Versioned SessionEnvironmentCredentialBinding} {deadline : ℕ}
    (hreference : Function.Injective2 reference) (hw : Consistent reference w)
    (hst : w.records.commit [tombstone (k := .environment) resource,
      ⟨.attempt id, 0, some ⟨⟨[], some resource.value, .cleanup, deadline⟩, false⟩⟩] = some st)
    (hseen : Slot.Precedes (some ⟨resource.revision, ⟨resource.value, false⟩⟩)
      (w.records .environment)) :
    w.Update reference id ⟨1, ⟨⟨[], some resource.value, .cleanup, deadline⟩, false⟩⟩
      ⟨st, w.ghost⟩ := by
  have hfound : w.records .environment = some ⟨resource.revision, ⟨resource.value, false⟩⟩ :=
    found_of_commit (k := .environment) hst List.mem_cons_self hseen
  have hdeleted : st .environment = some ⟨resource.revision + 1, ⟨resource.value, true⟩⟩ :=
    Store.commit_written hst (w := tombstone (k := .environment) resource) List.mem_cons_self
      (by simp [tombstone])
  have htools : st .tools = w.records .tools := Store.commit_frame hst (by simp [tombstone])
  have hnone : ∀ r, ¬ BoundEnvironment ⟨st, w.ghost⟩ r := by
    rintro r ⟨environment, hlive, -⟩
    have hgone := (liveRecord_eq_some.mp hlive).symm.trans hdeleted
    simp at hgone
  have hbound : ∀ r, w.BoundEnvironment r ↔ r ∈ resource.value.references :=
    fun r ↦ boundEnvironment_iff hfound
  refine update_of_unbinding (k := .environment) hw hst (fun _ ↦ ToolKey.noConfusion) rfl
    (fun r ↦ (boundTool_congr htools).mp) (fun r hb ↦ absurd hb (hnone r)) (fun r hb ↦ ?_)
    fun r hr ↦ ?_
  · rcases hb with hb | hb
    · exact .inl (.inl ((boundTool_congr htools).mpr hb))
    · exact .inr (List.mem_append_right _ ((hbound r).mp hb))
  · have hmem : r ∈ resource.value.references := by
      simpa [SessionToolAttempt.references, inlineReferences, environmentReferences] using hr
    have hb := (hbound r).mpr hmem
    refine ⟨.inr hb, fun hb' ↦ hb'.elim (fun hb' ↦ ?_) (hnone r)⟩
    obtain ⟨id₁, -, hof⟩ := hw.environment r hb
    obtain ⟨id₂, -, hof'⟩ := hw.tools r ((boundTool_congr htools).mp hb')
    exact hof'.not_environment hreference hof

theorem mem_adoptionWrites {preparation : Option (Versioned SessionPreparation)}
    {written : Write ToolKey ToolValue} :
    written ∈ SessionToolService.adoptionWrites id value preparation ↔
      written = ⟨.tools, 0, some ⟨value.bindings, false⟩⟩ ∨
      written = ⟨.attempt id, 1, some ⟨{ value with status := .adopted }, false⟩⟩ ∨
      (∃ environment, value.environment = some environment ∧
        written = ⟨.environment, 0, some ⟨environment, false⟩⟩) ∨
      ∃ resource, preparation = some resource ∧
        written = ⟨.preparation, resource.revision, some ⟨resource.value, false⟩⟩ := by
  simp [SessionToolService.adoptionWrites, eq_comm]

/-- An adoption writes each record once. -/
theorem adoptionWrites_inj {preparation : Option (Versioned SessionPreparation)}
    {written written' : Write ToolKey ToolValue}
    (hw : written ∈ SessionToolService.adoptionWrites id value preparation)
    (hw' : written' ∈ SessionToolService.adoptionWrites id value preparation)
    (hkey : written'.key = written.key) : written' = written := by
  rcases mem_adoptionWrites.mp hw with rfl | rfl | ⟨e, he, rfl⟩ | ⟨p, hp, rfl⟩ <;>
    rcases mem_adoptionWrites.mp hw' with rfl | rfl | ⟨e', he', rfl⟩ | ⟨p', hp', rfl⟩ <;>
    simp_all

theorem written_of_adoption {preparation : Option (Versioned SessionPreparation)}
    {written : Write ToolKey ToolValue}
    (hst : w.records.commit (SessionToolService.adoptionWrites id value preparation) = some st)
    (hw : written ∈ SessionToolService.adoptionWrites id value preparation) :
    st written.key = written.value.map fun v ↦ ⟨written.expected + 1, v⟩ :=
  Store.commit_written hst hw fun _ hw' hkey ↦ adoptionWrites_inj hw hw' hkey

/-- An adoption leaves the attempts of the other ids alone. -/
theorem attempt_of_adoption {preparation : Option (Versioned SessionPreparation)}
    (hst : w.records.commit (SessionToolService.adoptionWrites id value preparation) = some st)
    {id' : String} (hid : id' ≠ id) : st (.attempt id') = w.records (.attempt id') := by
  refine Store.commit_frame hst fun w' hw' ↦ ?_
  rcases mem_adoptionWrites.mp hw' with rfl | rfl | ⟨e, he, rfl⟩ | ⟨p, hp, rfl⟩ <;> simp [hid]

/-- An adoption binds the environment of the attempt, if it has one, to a Session without one. -/
theorem boundEnvironment_of_adoption {preparation : Option (Versioned SessionPreparation)}
    (hnumbered : w.records.Numbered)
    (hst : w.records.commit (SessionToolService.adoptionWrites id value preparation) = some st)
    (r : String) : BoundEnvironment ⟨st, w.ghost⟩ r ↔
      w.BoundEnvironment r ∨ r ∈ environmentReferences value.environment := by
  cases hvalue : value.environment with
  | none =>
    have hframe : st .environment = w.records .environment := by
      refine Store.commit_frame hst fun w' hw' ↦ ?_
      rcases mem_adoptionWrites.mp hw' with rfl | rfl | ⟨e, he, rfl⟩ | ⟨p, hp, rfl⟩
      · exact ToolKey.noConfusion
      · exact ToolKey.noConfusion
      · rw [hvalue] at he
        cases he
      · exact ToolKey.noConfusion
    have hcongr : BoundEnvironment ⟨st, w.ghost⟩ r ↔ w.BoundEnvironment r :=
      boundEnvironment_congr hframe
    simpa [environmentReferences] using hcongr
  | some environment =>
    have hmem : (⟨.environment, 0, some ⟨environment, false⟩⟩ : Write ToolKey ToolValue) ∈
        SessionToolService.adoptionWrites id value preparation :=
      mem_adoptionWrites.mpr (.inr (.inr (.inl ⟨environment, hvalue, rfl⟩)))
    have hnone : w.records .environment = none := Store.eq_none_of_commit hnumbered hst hmem rfl
    have hbefore : ¬ w.BoundEnvironment r := by
      rintro ⟨environment', hlive, -⟩
      rw [hnone] at hlive
      cases hlive
    rw [boundEnvironment_iff (w := ⟨st, w.ghost⟩) (written_of_adoption hst hmem)]
    simp [environmentReferences, hbefore]

/-- The Session is bound to what a pending attempt names. -/
theorem update_of_adoption {preparation : Option (Versioned SessionPreparation)}
    (hw : Consistent reference w)
    (hst : w.records.commit (SessionToolService.adoptionWrites id value preparation) = some st)
    (hpending : value.status = .pending)
    (hseen : Slot.Precedes (some ⟨1, ⟨value, false⟩⟩) (w.attempt? id)) :
    w.Update reference id ⟨2, ⟨{ value with status := .adopted }, false⟩⟩ ⟨st, w.ghost⟩ := by
  let adopted : Write ToolKey ToolValue :=
    ⟨.attempt id, 1, some ⟨{ value with status := .adopted }, false⟩⟩
  let bound : Write ToolKey ToolValue := ⟨.tools, 0, some ⟨value.bindings, false⟩⟩
  have hadopts : adopted ∈ SessionToolService.adoptionWrites id value preparation :=
    mem_adoptionWrites.mpr (.inr (.inl rfl))
  have hbinds : bound ∈ SessionToolService.adoptionWrites id value preparation :=
    mem_adoptionWrites.mpr (.inl rfl)
  have hfound : w.attempt? id = some ⟨1, ⟨value, false⟩⟩ :=
    Store.commit_of_seen hst hadopts rfl hseen
  have htools : w.records .tools = none := Store.eq_none_of_commit hw.numbered hst hbinds rfl
  have hreserved : value.Reserved reference id :=
    hw.reserved id _ hfound (by rw [hpending]; exact AttemptStatus.noConfusion)
  -- An attempt is adopted once: the record that the commit has found is pending.
  have hnot : ¬ w.Adopted id := by
    rintro ⟨record, hrecord, hstatus⟩
    obtain rfl := Option.some.inj (hfound.symm.trans hrecord)
    rw [hpending] at hstatus
    cases hstatus
  have hwritten : attempt? ⟨st, w.ghost⟩ id =
      some ⟨2, ⟨{ value with status := .adopted }, false⟩⟩ := written_of_adoption hst hadopts
  have htools' : st .tools = some ⟨1, ⟨value.bindings, false⟩⟩ := written_of_adoption hst hbinds
  have hothers : ∀ id', id' ≠ id → st (.attempt id') = w.records (.attempt id') :=
    fun _ hid ↦ attempt_of_adoption hst hid
  have hboundTool : ∀ r, BoundTool ⟨st, w.ghost⟩ r ↔ r ∈ inlineReferences value.bindings :=
    fun r ↦ boundTool_iff (w := ⟨st, w.ghost⟩) htools'
  have henvironment : ∀ r, BoundEnvironment ⟨st, w.ghost⟩ r ↔
      w.BoundEnvironment r ∨ r ∈ environmentReferences value.environment :=
    boundEnvironment_of_adoption hw.numbered hst
  have hnoTool : ∀ r, ¬ w.BoundTool r := by
    rintro r ⟨bindings, hlive, -⟩
    rw [htools] at hlive
    cases hlive
  have hkept : ∀ w' ∈ SessionToolService.adoptionWrites id value preparation, w'.value.isSome := by
    intro w' hw'
    rcases mem_adoptionWrites.mp hw' with rfl | rfl | ⟨e, he, rfl⟩ | ⟨p, hp, rfl⟩ <;> rfl
  refine ⟨Store.numbered_of_commit hw.numbered hst, Store.precedes_of_commit hst hkept, rfl,
    hwritten, hothers, fun old hold ↦ ?_, fun h ↦ (by cases h),
      fun _ ↦ ⟨hreserved.tools, hreserved.environment⟩,
    fun r hb ↦ ?_, fun r hb ↦ ?_, fun h ↦ (by cases h), fun h ↦ (by cases h), fun r hr ↦ ?_⟩
  · obtain rfl := Option.some.inj (hfound.symm.trans hold)
    exact ⟨rfl, rfl, fun hne ↦ absurd hpending hne, fun h ↦ h⟩
  · exact .inr ⟨hnot, rfl, hreserved.tools r ((hboundTool r).mp hb)⟩
  · exact ((henvironment r).mp hb).imp_right fun hmem ↦
      ⟨hnot, rfl, hreserved.environment r hmem⟩
  · have hnew : r ∈ value.references → Covered ⟨st, w.ghost⟩ r := by
      intro hmem
      rcases List.mem_append.mp hmem with hmem | hmem
      · exact .inl (.inl ((hboundTool r).mpr hmem))
      · exact .inl (.inr ((henvironment r).mpr (.inr hmem)))
    rcases hr with ((hb | hb) | hrevoked | ⟨id', hawaits⟩) | hmem
    · exact absurd hb (hnoTool r)
    · exact .inl (.inr ((henvironment r).mpr (.inl hb)))
    · exact .inr (.inl hrevoked)
    · by_cases hid : id' = id
      · obtain ⟨old, hold, -, -, hmem⟩ := hawaits
        obtain rfl := Option.some.inj (hfound.symm.trans (hid ▸ hold))
        exact hnew hmem
      · exact .inr (.inr ⟨id', hawaits.of_others (hothers id' hid)⟩)
    · exact hnew hmem

/-- A transaction that writes nothing but the preparation. -/
theorem consistent_of_preparation (hw : Consistent reference w)
    (hst : w.records.commit ws = some st)
    (hws : ∀ w' ∈ ws, w'.key = .preparation ∧ w'.value.isSome) :
    Consistent reference ⟨st, w.ghost⟩ ∧ w.Since ⟨st, w.ghost⟩ := by
  have hframe : ∀ k, k ≠ .preparation → st k = w.records k := fun k hk ↦
    Store.commit_frame hst fun w' hw' ↦ by rwa [(hws w' hw').1]
  have hattempt : ∀ id, attempt? ⟨st, w.ghost⟩ id = w.attempt? id := fun id ↦
    hframe (.attempt id) ToolKey.noConfusion
  have htools : ∀ r, BoundTool ⟨st, w.ghost⟩ r ↔ w.BoundTool r := fun r ↦
    boundTool_congr (hframe .tools ToolKey.noConfusion)
  have henvironment : ∀ r, BoundEnvironment ⟨st, w.ghost⟩ r ↔ w.BoundEnvironment r := fun r ↦
    boundEnvironment_congr (hframe .environment ToolKey.noConfusion)
  have hsince : w.Since ⟨st, w.ghost⟩ :=
    ⟨Store.precedes_of_commit hst fun w' hw' ↦ (hws w' hw').2,
      fun id record hrecord ↦ ⟨record, (hattempt id).trans hrecord, .refl record⟩,
      List.Subset.refl _⟩
  have hnumbered := Store.numbered_of_commit hw.numbered hst
  refine ⟨⟨hnumbered, ?_, ?_, ?_, ?_, ?_, ?_, ?_, ?_, ?_, ?_, hw.created⟩, hsince⟩
  all_goals simp only [Adopted, Bound, Named, Covered, Awaits, hattempt, htools, henvironment]
  · exact hw.pending
  · exact hw.reserved
  · exact hw.tools
  · exact hw.environment
  · exact hw.cleanup
  · exact hw.unbound
  · exact hw.revoked
  · exact hw.cleaned
  · exact hw.covered
  · exact hw.requested

end

/-! ## Secrets

A secret is created for an attempt that names it, and revoked when nothing is bound to it any
more. -/

/-- The attempt is being cleaned up, or has been. -/
def Cleaning (w : ToolWorld) (id : String) (references : List String) : Prop :=
  ∃ record, w.attempt? id = some record ∧ record.value.value.status = .cleanup ∧
    record.value.value.references = references

theorem Cleaning.since {references : List String} (h : w.Cleaning id references)
    (hs : w.Since w') : w'.Cleaning id references := by
  obtain ⟨record, hrecord, hstatus, hreferences⟩ := h
  obtain ⟨record', hrecord', hmoves⟩ := hs.attempts id record hrecord
  refine ⟨record', hrecord', (hmoves.status ?_).trans hstatus, hmoves.references.trans hreferences⟩
  rw [hstatus]
  exact AttemptStatus.noConfusion

/-- The secret store only revokes what is being cleaned up, and only creates what was recorded. -/
theorem consistent_of_history {history : SecretHistory} (hw : Consistent reference w)
    (hkept : w.ghost.revoked ⊆ history.revoked)
    (hrevoked : ∀ r ∈ history.revoked, r ∈ w.ghost.revoked ∨
      ∃ id references, w.Cleaning id references ∧ r ∈ references)
    (hrequested : ∀ r ∈ history.requested, w.Named r)
    (hcreated : ∀ r ∈ history.created, r ∈ history.requested) :
    Consistent reference ⟨w.records, history⟩ ∧ w.Since ⟨w.records, history⟩ := by
  refine ⟨⟨hw.numbered, hw.pending, hw.reserved, hw.tools, hw.environment, hw.cleanup, hw.unbound,
    fun r hr ↦ ?_, fun id record hrecord hstatus hdeleted r hr ↦
      hkept (hw.cleaned id record hrecord hstatus hdeleted r hr), fun r hr ↦ ?_, hrequested,
    hcreated⟩, fun _ ↦ .refl _, fun _ record hrecord ↦ ⟨record, hrecord, .refl record⟩, hkept⟩
  · rcases hrevoked r hr with hr | ⟨id, references, ⟨record, hrecord, hstatus, rfl⟩, hmem⟩
    · exact hw.revoked r hr
    · exact ⟨id, record, hrecord, hstatus, hmem⟩
  · rcases hw.covered r hr with hb | hrevoked | hawaits
    · exact .inl hb
    · exact .inr (.inl (hkept hrevoked))
    · exact .inr (.inr hawaits)

theorem consistent_of_revoke {references : List String} (hw : Consistent reference w)
    (hcleaning : w.Cleaning id references) (hr : r ∈ references) :
    Consistent reference ⟨w.records, { w.ghost with revoked := w.ghost.revoked ++ [r] }⟩ ∧
      w.Since ⟨w.records, { w.ghost with revoked := w.ghost.revoked ++ [r] }⟩ := by
  refine consistent_of_history hw (List.subset_append_left _ _) (fun r' hr' ↦ ?_) hw.requested
    hw.created
  rcases List.mem_append.mp hr' with hr' | hr'
  · exact .inl hr'
  · rw [List.mem_singleton.mp hr']
    exact .inr ⟨id, references, hcleaning, hr⟩

theorem settle_revoked (history : SecretHistory) : (history.settle r).revoked =
    history.revoked := by
  unfold SecretHistory.settle
  split <;> rfl

theorem settle_requested (history : SecretHistory) :
    (history.settle r).requested = history.requested := by
  unfold SecretHistory.settle
  split <;> rfl

theorem settle_created {history : SecretHistory}
    (h : ∀ r ∈ history.created, r ∈ history.requested) :
    ∀ r' ∈ (history.settle r).created, r' ∈ history.requested := by
  unfold SecretHistory.settle
  split
  · next hsettles =>
    intro r' hr'
    rcases List.mem_append.mp hr' with hr' | hr'
    · exact h r' hr'
    · rw [List.mem_singleton.mp hr']
      exact hsettles.1
  · exact h

theorem consistent_of_settle (hw : Consistent reference w) :
    Consistent reference ⟨w.records, w.ghost.settle r⟩ ∧ w.Since ⟨w.records, w.ghost.settle r⟩ := by
  refine consistent_of_history hw ?_ ?_ ?_ ?_
  · rw [settle_revoked]
    exact List.Subset.refl _
  · rw [settle_revoked]
    exact fun r' hr' ↦ .inl hr'
  · rw [settle_requested]
    exact hw.requested
  · rw [settle_requested]
    exact settle_created hw.created

theorem consistent_of_request (hw : Consistent reference w) (hr : w.Named r) :
    Consistent reference ⟨w.records, { w.ghost with requested := w.ghost.requested ++ [r] }⟩ ∧
      w.Since ⟨w.records, { w.ghost with requested := w.ghost.requested ++ [r] }⟩ := by
  refine consistent_of_history hw (List.Subset.refl _) (fun r' hr' ↦ .inl hr') (fun r' hr' ↦ ?_)
    fun r' hr' ↦ List.mem_append_left _ (hw.created r' hr')
  rcases List.mem_append.mp hr' with hr' | hr'
  · exact hw.requested r' hr'
  · rwa [List.mem_singleton.mp hr']

/-- What a request to create a secret does, whether or not it takes effect. -/
theorem consistent_of_create {x : ToolChoice} {a : Except ServiceFailure Unit}
    {history : SecretHistory} {secret : SessionCredentialSecret} (pid : ℕ)
    (hw : Consistent reference w) (hr : w.Named r)
    (h : toolAnswer pid (.createSecret secret r) x w.ghost = some (a, history)) :
    Consistent reference ⟨w.records, history⟩ ∧ w.Since ⟨w.records, history⟩ := by
  obtain ⟨hasked, hsince⟩ := consistent_of_request hw hr
  simp only [toolAnswer] at h
  split at h
  · split at h <;> cases h
    obtain ⟨hsettled, hsince'⟩ := consistent_of_settle (r := r) hasked
    exact ⟨hsettled, hsince.trans hsince'⟩
  · split at h <;> cases h
    exact ⟨hasked, hsince⟩

end ToolWorld

end RatThings
