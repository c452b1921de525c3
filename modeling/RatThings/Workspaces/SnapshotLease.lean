import RatThings.Workspaces.SingleWriter

/-!
# A snapshot lease excludes changes of the workspace

Whoever copies a checkpointed workspace holds a lease on it, which is part of the environment
record. While a lease has not expired, the workspace is not adopted, retired or leased again, unless
its holder ends it. The service is the one of `workspaceBody`; here its clock never goes back, and
its history remembers what happened to the leases instead of what happened to the writers.

## The invariant

Two things carry the proof. A plan that was made while a lease ran out of time may be written
later, but not the other way round: what a plan saw as expired is expired ever after
(`StoredEnvironment.Keeps`). And while a lease is in the record nothing has happened since it was
granted (`SnapshotHistory.Fits`).

The log holds the grants and the ends of leases, the adoptions and the retirements. They are read
off the record before and after each commit, so no writer can leave an event out.

## Publication

A copy is published together with the end of its lease, in one transaction. What was published is
there for good, so a call that is repeated finds its copy and has nothing more to do
(`WorkspaceCall.Done`).
-/

namespace RatThings

open Concurrent Service Setting

/-! ## Records and history -/

/-- The committed checkpoint, and the lease on it. -/
def StoredEnvironment.leased? (value : StoredEnvironment) :
    Option (WorkspaceCheckpoint × SnapshotLease) :=
  match value.handoff with
  | some (.committed checkpoint (some lease)) => some (checkpoint, lease)
  | _ => none

inductive SnapshotEvent : Type
  | granted (checkpoint : WorkspaceCheckpoint) (lease : SnapshotLease)
  /-- The lease was given up, or its copy was published. -/
  | ended (lease : SnapshotLease)
  | adopted
  | retired
deriving DecidableEq, Repr

structure SnapshotHistory where
  log : List SnapshotEvent
  /-- The last reading of the clock. -/
  clock : ℕ
deriving DecidableEq, Repr

/-- What a change of the record says about the workspace. -/
def workspaceEvents (old new : StoredEnvironment) : List SnapshotEvent :=
  (if new.retired && !old.retired then [.retired] else []) ++
    if new.consumed? = old.consumed? then [] else new.consumed?.toList.map fun _ ↦ .adopted

/-- What it says about the lease. -/
def leaseEvents (old new : StoredEnvironment) : List SnapshotEvent :=
  if new.leased? = old.leased? then []
  else match new.leased? with
    | some (checkpoint, lease) => [.granted checkpoint lease]
    | none =>
      if new.committed? = old.committed? then old.leased?.toList.map fun (_, lease) ↦ .ended lease
      else []

def snapshotEvents (old new : StoredEnvironment) : List SnapshotEvent :=
  workspaceEvents old new ++ leaseEvents old new

def SnapshotHistory.observe (history : SnapshotHistory) (old new : StoredEnvironment) :
    SnapshotHistory :=
  { history with log := history.log ++ snapshotEvents old new }

def snapshotAnswer (_ : ℕ) :
    (q : WorkspaceAsk) → WorkspaceChoice → SnapshotHistory → Option (q.Answer × SnapshotHistory)
  | .now, x, history => some (x.clock, { history with clock := x.clock })
  | .randomUUID, x, history => some (x.uuid, history)
  | .sourceStopped _, x, history => some (x.attempt, history)
  | .runEnded _, x, history => some (x.attempt, history)
  | .piRecoveryAllowed, x, history => some (x.attempt, history)

def snapshotSurroundings : Surroundings WorkspaceKey WorkspaceValue WorkspaceAsk
    WorkspaceAsk.Answer SnapshotHistory WorkspaceChoice where
  answer := snapshotAnswer
  observe _ old new history :=
    match old .environment, new .environment with
    | some before, some after => history.observe before.value after.value
    | _, _ => history

abbrev SnapshotWorld : Type := RecordWorld WorkspaceKey WorkspaceValue SnapshotHistory

/-- The clock never goes back. -/
def snapshotDiscipline : Discipline SnapshotWorld
    (RecordEffect WorkspaceKey WorkspaceValue WorkspaceAsk) WorkspaceCall
    (RecordChoice WorkspaceChoice) where
  starts _ _ _ := True
  answers _ e x w :=
    match e with
    | .ask .now => w.ghost.clock ≤ x.answer.clock
    | _ => True

instance : snapshotDiscipline.Checked where
  starts _ _ _ := .isTrue trivial
  answers _ e x w :=
    match e with
    | .ask .now => inferInstanceAs (Decidable (w.ghost.clock ≤ x.answer.clock))
    | .ask .randomUUID => .isTrue trivial
    | .ask (.sourceStopped _) => .isTrue trivial
    | .ask (.runEnded _) => .isTrue trivial
    | .ask .piRecoveryAllowed => .isTrue trivial
    | .get _ => .isTrue trivial
    | .commit _ => .isTrue trivial

def snapshotService (storageKey : String → String → String → String) :=
  snapshotSurroundings.service (workspaceBody storageKey)

/-! ## The planners

An update of the record is planned at one time and written at another. Between the two the record is
the same, but not the clock. -/

/-- What a plan may do to a record that carries a lease: nothing, while the lease has not expired,
but end it. -/
structure StoredEnvironment.Keeps (now : ℕ) (old new : StoredEnvironment) : Prop where
  retired : old.retired = true → new.retired = true
  leased : ∀ checkpoint lease, old.handoff = some (.committed checkpoint (some lease)) →
    now < lease.expiresAt → new.retired = old.retired ∧ new.runId = old.runId ∧
      new.executionGeneration = old.executionGeneration ∧
      (new.handoff = old.handoff ∨ new.handoff = some (.committed checkpoint none))

section

variable {now later : ℕ} {old new : StoredEnvironment}

theorem StoredEnvironment.Keeps.mono (h : old.Keeps now new) (hle : now ≤ later) :
    old.Keeps later new :=
  ⟨h.retired, fun checkpoint lease hold hlt ↦ h.leased checkpoint lease hold (by omega)⟩

theorem StoredEnvironment.Keeps.refl (old : StoredEnvironment) : old.Keeps 0 old :=
  ⟨fun h ↦ h, fun _ _ _ _ ↦ ⟨rfl, rfl, rfl, .inl rfl⟩⟩

/-- A change that leaves everything alone that has to do with leases. -/
theorem StoredEnvironment.Keeps.steady (hretired : new.retired = old.retired)
    (hrun : new.runId = old.runId) (hgeneration : new.executionGeneration = old.executionGeneration)
    (hhandoff : new.handoff = old.handoff) : old.Keeps now new :=
  ⟨fun h ↦ hretired.trans h, fun _ _ _ _ ↦ ⟨hretired, hrun, hgeneration, .inl hhandoff⟩⟩

/-- A change of a record that carries no lease. -/
theorem StoredEnvironment.Keeps.unleased (hretired : old.retired = true → new.retired = true)
    (h : ∀ checkpoint lease, old.handoff = some (.committed checkpoint (some lease)) →
      lease.expiresAt ≤ now) : old.Keeps now new :=
  ⟨hretired, fun checkpoint lease hold hlt ↦ absurd (h checkpoint lease hold) (by omega)⟩

/-- A change of a record whose hand-off is not a committed checkpoint. -/
theorem StoredEnvironment.Keeps.uncommitted (hretired : old.retired = true → new.retired = true)
    (h : old.committed? = none) : old.Keeps now new := by
  refine .unleased hretired fun checkpoint lease hold ↦ ?_
  rw [StoredEnvironment.committed?, hold] at h
  cases h

theorem keeps_planBind {execution : WorkspaceExecution} (hplan : planBind old execution = .ok new) :
    old.Keeps now new := by
  unfold planBind at hplan
  split at hplan
  · cases hplan
  next hcan =>
  simp only [Bool.or_eq_true, not_or, Bool.not_eq_true] at hcan
  have hnone : old.handoff = none := by simpa using hcan.1.2
  split at hplan
  · cases hplan
    exact .steady rfl rfl rfl rfl
  · cases hplan
    exact .uncommitted (fun h ↦ h) (by rw [StoredEnvironment.committed?, hnone])

theorem keeps_planHandoffBegin {source : WorkspaceExecution} {id : String} {expiresAt : ℕ}
    (hplan : planHandoffBegin old source id now expiresAt = .ok new) : old.Keeps later new := by
  obtain ⟨⟨⟩, -, hplan⟩ := eq_ok_of_bind hplan
  split at hplan
  · cases hplan
  dsimp only at hplan
  split at hplan
  · split at hplan <;> cases hplan
    exact .steady rfl rfl rfl rfl
  · cases hplan
  · cases hplan
  · next hhandoff =>
    cases hplan
    exact .uncommitted (fun h ↦ h) (by rw [StoredEnvironment.committed?, hhandoff])
  · next hhandoff =>
    cases hplan
    exact .uncommitted (fun h ↦ h) (by rw [StoredEnvironment.committed?, hhandoff])

theorem keeps_planCheckpointWrite {checkpoint : WorkspaceCheckpoint}
    (hplan : planCheckpointWrite old checkpoint now = .ok new) : old.Keeps later new := by
  obtain ⟨⟨⟩, -, hplan⟩ := eq_ok_of_bind hplan
  split at hplan
  · split at hplan <;> cases hplan
    exact .steady rfl rfl rfl rfl
  · next hhandoff =>
    split at hplan
    · cases hplan
    split at hplan
    · cases hplan
    cases hplan
    exact .uncommitted (fun h ↦ h) (by rw [StoredEnvironment.committed?, hhandoff])
  · cases hplan

/-- The lease of a hand-off that is adopted has expired. -/
theorem keeps_planCheckpointAdoption {checkpointId : String} {successor : WorkspaceExecution}
    {attemptId : String} {compatibility : WorkspaceCompatibility}
    (hplan : planCheckpointAdoption old checkpointId successor attemptId compatibility now =
      .ok new) : old.Keeps now new := by
  obtain ⟨⟨⟩, -, hplan⟩ := eq_ok_of_bind hplan
  split at hplan
  · cases hplan
  split at hplan
  · obtain ⟨⟨⟩, -, hplan⟩ := eq_ok_of_bind hplan
    split at hplan
    · obtain ⟨⟨⟩, -, hplan⟩ := eq_ok_of_bind hplan
      cases hplan
      exact .steady rfl rfl rfl rfl
    · cases hplan
  · next checkpoint snapshotLease hhandoff =>
    obtain ⟨⟨⟩, -, hplan⟩ := eq_ok_of_bind hplan
    obtain ⟨⟨⟩, -, hplan⟩ := eq_ok_of_bind hplan
    split at hplan
    · cases hplan
    split at hplan
    · cases hplan
    split at hplan
    · cases hplan
    next hcopied =>
    cases hplan
    refine .unleased (fun h ↦ h) fun checkpoint' lease hold ↦ ?_
    rw [hhandoff] at hold
    cases hold
    simpa using hcopied
  · cases hplan

theorem keeps_planHandoffAbort {source : WorkspaceExecution} {id : String}
    (hplan : planHandoffAbort old source id = .ok new) : old.Keeps now new := by
  obtain ⟨⟨⟩, -, hplan⟩ := eq_ok_of_bind hplan
  split at hplan
  · split at hplan <;> cases hplan
    exact .steady rfl rfl rfl rfl
  · next hhandoff =>
    split at hplan <;> cases hplan
    exact .uncommitted (fun h ↦ h) (by rw [StoredEnvironment.committed?, hhandoff])
  · cases hplan

/-- Another lease is granted only once the one in the record has expired. -/
theorem keeps_planSnapshotLease {checkpointId : String} {lease : SnapshotLease}
    (hplan : planSnapshotLease old checkpointId lease now = .ok new) : old.Keeps now new := by
  obtain ⟨⟨⟩, -, hplan⟩ := eq_ok_of_bind hplan
  split at hplan
  · next checkpoint snapshotLease hhandoff =>
    split at hplan
    · cases hplan
    split at hplan
    · cases hplan
    dsimp only at hplan
    split at hplan
    · cases hplan
      refine .unleased (fun h ↦ h) fun checkpoint' lease' hold ↦ ?_
      rw [hhandoff] at hold
      cases hold
    · next held =>
      split at hplan
      · split at hplan <;> cases hplan
        exact .steady rfl rfl rfl rfl
      · split at hplan
        · cases hplan
        next hexpired =>
        cases hplan
        refine .unleased (fun h ↦ h) fun checkpoint' lease' hold ↦ ?_
        rw [hhandoff] at hold
        cases hold
        omega
  · cases hplan

/-- What a release ends is the lease in the record. -/
theorem released_planSnapshotRelease {checkpointId leaseId : String}
    (hplan : planSnapshotRelease old checkpointId leaseId now = .ok new) :
    ∃ checkpoint lease, old.handoff = some (.committed checkpoint (some lease)) ∧
      checkpoint.id = checkpointId ∧ lease.id = leaseId ∧ old.retired = false ∧
      new = { old with handoff := some (.committed checkpoint none) } := by
  obtain ⟨⟨⟩, hhosted, hplan⟩ := eq_ok_of_bind hplan
  have hretired : old.retired = false := by
    unfold hosted at hhosted
    split at hhosted
    · cases hhosted
    · next h =>
      simp only [Bool.or_eq_true, not_or, Bool.not_eq_true] at h
      exact h.1.1.1
  split at hplan
  · next checkpoint held hhandoff =>
    split at hplan
    · cases hplan
    · next hheld =>
      simp only [Bool.or_eq_true, bne_iff_ne, not_or, ne_eq, not_not] at hheld
      cases hplan
      exact ⟨checkpoint, held, hhandoff, hheld.1.1, hheld.1.2, hretired, rfl⟩
  · cases hplan

theorem keeps_planSnapshotRelease {checkpointId leaseId : String}
    (hplan : planSnapshotRelease old checkpointId leaseId now = .ok new) : old.Keeps later new := by
  obtain ⟨checkpoint, lease, hold, -, -, -, rfl⟩ := released_planSnapshotRelease hplan
  refine ⟨fun h ↦ h, fun checkpoint' lease' hold' _ ↦ ⟨rfl, rfl, rfl, .inr ?_⟩⟩
  rw [hold] at hold'
  cases hold'
  rfl

theorem keeps_planManagedReadiness {runId : String} {sandbox : ManagedSandboxGeneration}
    {piWorkspace : Option WorkspaceCompatibility}
    (hplan : planManagedReadiness old runId sandbox now = .ok new) :
    old.Keeps later { new with piWorkspace } := by
  unfold planManagedReadiness at hplan
  split at hplan
  · cases hplan
  dsimp only at hplan
  split at hplan <;> cases hplan <;> exact .steady rfl rfl rfl rfl

theorem keeps_planManagedStatus {runId : String} {status : EnvironmentStatus}
    (hplan : planManagedStatus old runId status now = .ok new) : old.Keeps later new := by
  unfold planManagedStatus at hplan
  split at hplan
  · cases hplan
  dsimp only at hplan
  split at hplan
  · cases hplan
    exact .steady rfl rfl rfl rfl
  · cases hplan
    exact .steady rfl rfl rfl rfl
  · split at hplan <;> cases hplan
    exact .steady rfl rfl rfl rfl

theorem keeps_planRetire (hplan : planRetire old now = .ok new) : old.Keeps now new := by
  unfold planRetire at hplan
  dsimp only at hplan
  split at hplan
  · next checkpoint lease hhandoff =>
    split at hplan
    · cases hplan
    next hexpired =>
    cases hplan
    refine .unleased (fun _ ↦ rfl) fun checkpoint' lease' hold ↦ ?_
    rw [hhandoff] at hold
    cases hold
    omega
  · next hhandoff =>
    cases hplan
    exact .unleased (fun _ ↦ rfl) fun checkpoint' lease' hold ↦ absurd hold (hhandoff _ _)

theorem keeps_planAttach {runId : String} {admission : WorkspaceAdmission} {pi : Bool}
    (hplan : planAttach old runId admission pi now = .ok new) : old.Keeps now new := by
  unfold planAttach at hplan
  split at hplan
  · cases hplan
  split at hplan
  · cases hplan
  split at hplan
  · cases hplan
  split at hplan
  · cases hplan
    exact .steady rfl rfl rfl rfl
  split at hplan
  · next hhandoff =>
    cases hplan
    exact .uncommitted (fun h ↦ h) (by rw [StoredEnvironment.committed?, hhandoff])
  · split at hplan
    · cases hplan
    split at hplan
    · cases hplan
    cases hplan
    exact .steady rfl rfl rfl rfl
  · cases hplan

end

/-! ## The invariant -/

/-- The record and what happened to its leases fit together. -/
structure SnapshotHistory.Fits (history : SnapshotHistory) (value : StoredEnvironment) : Prop where
  /-- While a lease is in the record, its grant is the last thing that happened. -/
  recorded : ∀ checkpoint lease, value.leased? = some (checkpoint, lease) →
    value.retired = false → history.log.getLast? = some (.granted checkpoint lease)
  /-- A lease that has not expired was ended, or it is in the record and nothing has happened
  since. -/
  held : ∀ before checkpoint lease rest, history.log = before ++ .granted checkpoint lease :: rest →
    history.clock < lease.expiresAt →
      .ended lease ∈ rest ∨ rest = [] ∧ value.leased? = some (checkpoint, lease)

section

variable {history : SnapshotHistory} {old new : StoredEnvironment}
  {checkpoint : WorkspaceCheckpoint} {lease : SnapshotLease}

theorem leased?_eq_some : old.leased? = some (checkpoint, lease) ↔
    old.handoff = some (.committed checkpoint (some lease)) := by
  unfold StoredEnvironment.leased?
  split <;> simp_all

theorem leased?_of_handoff (h : new.handoff = old.handoff) : new.leased? = old.leased? := by
  rw [StoredEnvironment.leased?, h]
  rfl

theorem granted_of_mem_leaseEvents (h : .granted checkpoint lease ∈ leaseEvents old new) :
    leaseEvents old new = [.granted checkpoint lease] ∧
      new.leased? = some (checkpoint, lease) := by
  unfold leaseEvents at h ⊢
  split
  · next hsame => simp [hsame] at h
  · next hne =>
    rw [if_neg hne] at h
    split
    · next checkpoint' lease' hnew =>
      rw [hnew] at h
      simp only [List.mem_singleton, SnapshotEvent.granted.injEq] at h
      rw [h.1, h.2]
      exact ⟨rfl, hnew⟩
    · next hnew =>
      rw [hnew] at h
      dsimp only at h
      split at h
      · simp at h
      · cases h

theorem not_granted_workspaceEvents :
    .granted checkpoint lease ∉ workspaceEvents old new := by
  unfold workspaceEvents
  intro h
  rcases List.mem_append.mp h with h | h
  · split at h
    · simp at h
    · cases h
  · split at h
    · cases h
    · simp at h

/-- A grant is the last thing that a change of the record says. -/
theorem granted_of_snapshotEvents {before rest : List SnapshotEvent}
    (h : snapshotEvents old new = before ++ .granted checkpoint lease :: rest) :
    rest = [] ∧ new.leased? = some (checkpoint, lease) := by
  have hmem : .granted checkpoint lease ∈ snapshotEvents old new := by
    rw [h]
    simp
  have hlease : .granted checkpoint lease ∈ leaseEvents old new :=
    (List.mem_append.mp hmem).resolve_left not_granted_workspaceEvents
  obtain ⟨hevents, hnew⟩ := granted_of_mem_leaseEvents hlease
  refine ⟨?_, hnew⟩
  rw [snapshotEvents, hevents] at h
  rcases List.eq_nil_or_concat rest with hnil | ⟨rest', last, rfl⟩
  · exact hnil
  · rw [List.concat_eq_append, ← List.cons_append, ← List.append_assoc] at h
    obtain ⟨hworkspace, -⟩ := List.append_inj' h rfl
    have hgranted : .granted checkpoint lease ∈ workspaceEvents old new := by
      rw [hworkspace]
      simp
    exact absurd hgranted not_granted_workspaceEvents

theorem snapshotEvents_of_granted (hnew : new.leased? = some (checkpoint, lease))
    (hne : new.leased? ≠ old.leased?) :
    snapshotEvents old new = workspaceEvents old new ++ [.granted checkpoint lease] := by
  rw [snapshotEvents, leaseEvents, if_neg hne, hnew]

/-- A record that is left alone as far as leases go. -/
theorem snapshotEvents_of_same (hretired : new.retired = old.retired)
    (hhandoff : new.handoff = old.handoff) : snapshotEvents old new = [] := by
  have hconsumed : new.consumed? = old.consumed? := by
    rw [StoredEnvironment.consumed?, hhandoff]
    rfl
  simp [snapshotEvents, workspaceEvents, leaseEvents, hretired, hconsumed,
    leased?_of_handoff hhandoff]

theorem snapshotEvents_of_ended (hretired : new.retired = old.retired)
    (hold : old.handoff = some (.committed checkpoint (some lease)))
    (hnew : new.handoff = some (.committed checkpoint none)) :
    snapshotEvents old new = [.ended lease] := by
  simp [snapshotEvents, workspaceEvents, leaseEvents, hretired, StoredEnvironment.consumed?,
    StoredEnvironment.committed?,
    StoredEnvironment.leased?, hold, hnew]

theorem SnapshotHistory.Fits.observe (h : history.Fits old) (hkeeps : old.Keeps history.clock new) :
    (history.observe old new).Fits new := by
  refine ⟨fun checkpoint lease hleased hretired ↦ ?_,
    fun before checkpoint lease rest hlog hclock ↦ ?_⟩
  · have hretired' : old.retired = false := by
      by_contra hno
      rw [hkeeps.retired (by simpa using hno)] at hretired
      cases hretired
    by_cases hsame : new.leased? = old.leased?
    · have hnone : snapshotEvents old new = [] := by
        have hhandoff := leased?_eq_some.mp hleased
        have hold := leased?_eq_some.mp (hsame ▸ hleased)
        exact snapshotEvents_of_same (hretired.trans hretired'.symm) (hhandoff.trans hold.symm)
      rw [SnapshotHistory.observe, hnone, List.append_nil]
      exact h.recorded checkpoint lease (hsame ▸ hleased) hretired'
    · rw [SnapshotHistory.observe, snapshotEvents_of_granted hleased hsame, ← List.append_assoc]
      exact List.getLast?_concat
  · rw [SnapshotHistory.observe] at hlog hclock
    rcases List.append_eq_append_iff.mp hlog with ⟨gap, hbefore, hevents⟩ | ⟨gap, hlog', hrest⟩
    · exact .inr (granted_of_snapshotEvents hevents)
    · cases gap with
      | nil =>
        rw [List.nil_append] at hrest
        have hevents : snapshotEvents old new = [] ++ .granted checkpoint lease :: rest :=
          hrest.symm
        exact .inr (granted_of_snapshotEvents hevents)
      | cons event gap =>
        rw [List.cons_append, List.cons.injEq] at hrest
        obtain ⟨rfl, rfl⟩ := hrest
        rcases h.held before checkpoint lease gap hlog' hclock with hended | ⟨rfl, hleased⟩
        · exact .inl (List.mem_append_left _ hended)
        · -- What may have happened to a lease that has not expired is its end.
          have hold := leased?_eq_some.mp hleased
          obtain ⟨hretired, -, -, hhandoff | hhandoff⟩ :=
            hkeeps.leased checkpoint lease hold hclock
          · rw [snapshotEvents_of_same hretired hhandoff]
            exact .inr ⟨rfl, (leased?_of_handoff hhandoff).trans hleased⟩
          · rw [snapshotEvents_of_ended hretired hold hhandoff]
            exact .inl (by simp)

theorem SnapshotHistory.Fits.tick {clock : ℕ} (h : history.Fits old) (hle : history.clock ≤ clock) :
    SnapshotHistory.Fits { history with clock } old :=
  ⟨h.recorded, fun before checkpoint lease rest hlog hclock ↦
    h.held before checkpoint lease rest hlog (lt_of_le_of_lt hle hclock)⟩

end

/-! ## The specification -/

/-- There is an environment record, and what happened to its leases fits it. -/
structure SnapshotWorld.Consistent (w : SnapshotWorld) : Prop where
  environment : ∃ resource, w.records .environment = some resource ∧ w.ghost.Fits resource.value
  numbered : w.records.Numbered

/-- `w'` came after `w`. -/
structure SnapshotWorld.Since (w w' : SnapshotWorld) : Prop where
  environment : Slot.Precedes (w.records .environment) (w'.records .environment)
  /-- A copy that was published is there for good. -/
  snapshots : ∀ id snapshot, w.records (.forkSnapshot id) = some snapshot →
    w'.records (.forkSnapshot id) = some snapshot
  clock : w.ghost.clock ≤ w'.ghost.clock

/-- The publication of a copy: it ends the lease it was made under. -/
def SnapshotWorld.Publishes (w w' : SnapshotWorld) (id : String) (snapshot : ForkSnapshot) : Prop :=
  ∃ old new checkpoint lease, w.records .environment = some old ∧
    w'.records .environment = some new ∧
    old.value.handoff = some (.committed checkpoint (some lease)) ∧ old.value.retired = false ∧
    new.value = { old.value with handoff := some (.committed checkpoint none) } ∧
    id = "snapshot_" ++ lease.id ∧ snapshot.sourceCheckpointId = checkpoint.id

/-- What one step may do. -/
structure SnapshotWorld.Moves (w w' : SnapshotWorld) : Prop where
  keeps : ∀ old new, w.records .environment = some old → w'.records .environment = some new →
    old.value.Keeps w.ghost.clock new.value
  published : ∀ id snapshot, w.records (.forkSnapshot id) = none →
    w'.records (.forkSnapshot id) = some snapshot → w.Publishes w' id snapshot.value

/-- A step that leaves the records alone. -/
theorem SnapshotWorld.Moves.of_same {w w' : SnapshotWorld} (h : w'.records = w.records) :
    w.Moves w' := by
  refine ⟨fun old new hold hnew ↦ ?_, fun id snapshot hnone hsome ↦ ?_⟩
  · rw [h, hold] at hnew
    cases hnew
    exact (StoredEnvironment.Keeps.refl old.value).mono (Nat.zero_le _)
  · rw [h, hnone] at hsome
    cases hsome

def snapshotSpec : RecordSpec WorkspaceKey WorkspaceValue SnapshotHistory WorkspaceCall where
  inv := SnapshotWorld.Consistent
  since := SnapshotWorld.Since
  allowed _ := SnapshotWorld.Moves
  since_refl _ := ⟨.refl _, fun _ _ h ↦ h, le_rfl⟩
  since_trans h h' := ⟨h.environment.trans h'.environment,
    fun id snapshot hs ↦ h'.snapshots id snapshot (h.snapshots id snapshot hs),
    h.clock.trans h'.clock⟩
  allowed_refl _ _ := .of_same rfl

section

variable {storageKey : String → String → String → String} {p : ℕ × WorkspaceCall}

/-- The proof setting of the service, under a clock that never goes back. -/
abbrev snapshotSetting (storageKey : String → String → String → String) :=
  snapshotSpec.setting snapshotSurroundings (workspaceBody storageKey) snapshotDiscipline

/-! ## Requests -/

/-- A commit that changes the environment record as a plan says. -/
theorem steps_snapshotCommit {w : SnapshotWorld} {ws : List (Write WorkspaceKey WorkspaceValue)}
    {st : WorkspaceStore} {old : Versioned StoredEnvironment} {value : StoredEnvironment} {n : ℕ}
    (hinv : w.Consistent) (h : w.records.commit ws = some st)
    (hkeep : ∀ write ∈ ws, write.value.isSome) (hold : w.records .environment = some old)
    (hnew : st .environment = some ⟨n, value⟩) (hkeeps : old.value.Keeps w.ghost.clock value)
    (hsnapshots : ∀ id snapshot, w.records (.forkSnapshot id) = some snapshot →
      st (.forkSnapshot id) = some snapshot)
    (hpublished : ∀ id snapshot, w.records (.forkSnapshot id) = none →
      st (.forkSnapshot id) = some snapshot →
        w.Publishes ⟨st, snapshotSurroundings.observe p.1 w.records st w.ghost⟩ id snapshot.value) :
    snapshotSpec.Steps p w ⟨st, snapshotSurroundings.observe p.1 w.records st w.ghost⟩ := by
  have hobserve : snapshotSurroundings.observe p.1 w.records st w.ghost =
      w.ghost.observe old.value value := by
    simp only [snapshotSurroundings, hold, hnew]
  obtain ⟨resource, hresource, hfits⟩ := hinv.environment
  obtain rfl : resource = old := Option.some.inj (hresource.symm.trans hold)
  refine ⟨⟨⟨_, hnew, ?_⟩, Store.numbered_of_commit hinv.numbered h⟩,
    ⟨Store.precedes_of_commit h hkeep _, hsnapshots, ?_⟩, fun old' new hold' hnew' ↦ ?_, hpublished⟩
  · rw [hobserve]
    exact hfits.observe hkeeps
  · rw [hobserve]
    exact le_rfl
  · obtain rfl : resource = old' := Option.some.inj (hold.symm.trans hold')
    obtain rfl : (⟨n, value⟩ : Versioned StoredEnvironment) = new :=
      Option.some.inj (hnew.symm.trans hnew')
    exact hkeeps

/-- What the clock shows is the past from then on. -/
theorem meets_clockTick :
    (snapshotSetting storageKey).Meets p (fun _ ↦ True) clockNow
      (fun now w ↦ now ≤ w.ghost.clock) fun _ _ ↦ True := by
  refine (RecordSpec.meets_ask (P := fun _ ↦ True) (R := fun now w ↦ now ≤ w.ghost.clock)
    (fun _ _ _ _ _ _ _ _ ↦ trivial) fun w x a g hinv _ hx ha ↦ ?_).conseq (fun _ _ h ↦ h)
      (fun _ _ _ h ↦ h.2) fun _ _ _ h ↦ h
  obtain ⟨rfl, rfl⟩ := Prod.mk.inj (Option.some.inj ha)
  have hclock : w.ghost.clock ≤ x.answer.clock := hx
  obtain ⟨resource, hresource, hfits⟩ := hinv.environment
  exact ⟨⟨⟨⟨resource, hresource, hfits.tick hclock⟩, hinv.numbered⟩,
    ⟨.refl _, fun _ _ h ↦ h, hclock⟩, .of_same rfl⟩, le_rfl⟩

theorem yields_quietAsk {q : WorkspaceAsk} (hq : q ≠ .now) :
    (snapshotSetting storageKey).Yields p
      (Prog.perform (RecordEffect.ask q) : WorkspaceProg q.Answer) fun _ ↦ True := by
  refine (RecordSpec.yields_ask fun x a g g' h ↦ ?_).forget
  cases q with
  | now => exact absurd rfl hq
  | _ => exact (Prod.mk.inj (Option.some.inj h)).2.symm

/-! ## Updates -/

/-- A plan does nothing to a lease that has not expired, but end it. -/
def KeepsLeases (storageKey : String → String → String → String) (p : ℕ × WorkspaceCall)
    (plan : StoredEnvironment → WorkspaceProg StoredEnvironment) : Prop :=
  ∀ old, (snapshotSetting storageKey).Meets p (fun _ ↦ True) (plan old)
    (fun value w ↦ old.Keeps w.ghost.clock value) fun _ _ ↦ True

variable {plan : StoredEnvironment → WorkspaceProg StoredEnvironment}

/-- The environment record alone is written. -/
theorem replaces_of_keeps {w : SnapshotWorld} {current : Versioned StoredEnvironment}
    {value : StoredEnvironment} (hinv : w.Consistent)
    (hkeeps : current.value.Keeps w.ghost.clock value) :
    Replaces snapshotSpec snapshotSurroundings p current value w := by
  intro hread st hst hnew
  have hother : ∀ id, st (.forkSnapshot id) = w.records (.forkSnapshot id) := fun id ↦
    Store.commit_frame hst (by simp)
  refine steps_snapshotCommit hinv hst (by simp) hread hnew hkeeps
    (fun id snapshot h ↦ (hother id).trans h) fun id snapshot hnone hsome ↦ ?_
  rw [hother, hnone] at hsome
  cases hsome

theorem KeepsLeases.safe (hplan : KeepsLeases storageKey p plan) :
    SafePlan snapshotSpec snapshotSurroundings (workspaceBody storageKey) snapshotDiscipline p
      (fun _ ↦ True) (fun old value w ↦ old.Keeps w.ghost.clock value) plan where
  assumed _ _ _ h := h
  decided _ _ _ _ hsince h := h.mono hsince.clock
  since _ _ hsince := hsince.environment
  plans := hplan
  replaces _ _ _ hinv _ hkeeps := replaces_of_keeps hinv hkeeps

theorem yields_leasedHandoffUpdate (hplan : KeepsLeases storageKey p plan) :
    (snapshotSetting storageKey).Yields p (WorkspaceHandoffService.update plan) fun _ ↦ True :=
  hplan.safe.meets_handoffUpdate 5

theorem yields_leasedEnvironmentUpdate (hplan : KeepsLeases storageKey p plan) :
    (snapshotSetting storageKey).Yields p (EnvironmentService.update plan) fun _ ↦ True :=
  hplan.safe.meets_environmentUpdate 5

/-- A plan that needs no clock. -/
theorem keepsLeases_orRefuse {planner : StoredEnvironment → Except AgentsApiError StoredEnvironment}
    (h : ∀ now old value, planner old = .ok value → old.Keeps now value) :
    KeepsLeases storageKey p fun value ↦ orRefuse (planner value) :=
  fun old ↦ yields_orRefuse.conseq (fun _ _ h ↦ h) (fun value _ _ hplan ↦ h _ old value hplan)
    fun _ _ _ h ↦ h

/-- A plan that reads the clock. -/
theorem keepsLeases_clockNow
    {planner : ℕ → StoredEnvironment → Except AgentsApiError StoredEnvironment}
    (h : ∀ now old value, planner now old = .ok value → old.Keeps now value) :
    KeepsLeases storageKey p fun value ↦ clockNow >>= fun now ↦ orRefuse (planner now value) := by
  intro old
  refine Meets.bind meets_clockTick fun now ↦ ?_
  have hpast : (snapshotSetting storageKey).Permanent fun w ↦ now ≤ w.ghost.clock :=
    fun _ _ _ _ _ _ hg hle ↦ le_trans hle hg.1.clock
  refine (yields_orRefuse.framed hpast).conseq (fun _ _ h ↦ h) (fun value w _ hplan ↦ ?_)
    fun _ _ _ _ ↦ trivial
  exact (h now old value hplan.2).mono hplan.1

theorem yields_tick : (snapshotSetting storageKey).Yields p clockNow fun _ ↦ True :=
  meets_clockTick.conseq (fun _ _ h ↦ h) (fun _ _ _ _ ↦ trivial) fun _ _ _ h ↦ h

/-! ## The calls -/

theorem keepsLeases_begin (source : WorkspaceExecution) (transitionId : String) :
    KeepsLeases storageKey p fun value ↦ clockNow >>= fun now ↦ clockNow >>= fun later ↦
      orRefuse (planHandoffBegin value source transitionId now (later + 120)) :=
  fun old ↦ yields_tick.andThen fun _ _ ↦
    keepsLeases_clockNow (fun _ _ _ h ↦ keeps_planHandoffBegin h) old

theorem leased_adopt (checkpointId : String) (successor : WorkspaceExecution) (attemptId : String)
    (compatibility : WorkspaceCompatibility) :
    (snapshotSetting storageKey).Yields p
      (WorkspaceHandoffService.adopt checkpointId successor attemptId compatibility)
      fun _ ↦ True :=
  yields_leasedHandoffUpdate (keepsLeases_clockNow fun _ _ _ h ↦ keeps_planCheckpointAdoption h)

theorem leased_bind (execution : WorkspaceExecution) :
    (snapshotSetting storageKey).Yields p (WorkspaceHandoffService.bind execution) fun _ ↦ True :=
  yields_leasedHandoffUpdate (keepsLeases_orRefuse fun _ _ _ h ↦ keeps_planBind h)

theorem leased_leaseSnapshot (checkpointId : String) (durationSeconds : ℕ) :
    (snapshotSetting storageKey).Yields p
      (WorkspaceHandoffService.leaseSnapshot storageKey checkpointId durationSeconds)
      fun _ ↦ True := by
  unfold WorkspaceHandoffService.leaseSnapshot
  split
  · exact yields_raise
  · refine (yields_quietAsk (by simp)).bind fun id _ ↦ yields_tick.bind fun now _ ↦ ?_
    refine (yields_leasedHandoffUpdate ?_).bind fun _ _ ↦ yields_ret trivial
    exact keepsLeases_clockNow fun _ _ _ h ↦ keeps_planSnapshotLease h

theorem leased_requireStopped (source : WorkspaceExecution) :
    (snapshotSetting storageKey).Yields p (requireStopped source) fun _ ↦ True := by
  refine (yields_quietAsk (by simp)).bind fun a _ ↦
    (yields_ofExcept (F := fun _ ↦ True) fun _ _ ↦ trivial).bind fun stopped _ ↦ ?_
  split
  · exact yields_raise
  · exact yields_ret trivial

theorem leased_recover (source : WorkspaceExecution) :
    (snapshotSetting storageKey).Yields p (WorkspaceHandoffService.recover source)
      fun _ ↦ True := by
  refine meets_requiredRecord stable_true fun w₀ current _ _ hread ↦ ?_
  have hP : (snapshotSetting storageKey).Permanent (snapshotSpec.since w₀) :=
    RecordSpec.since_permanent w₀
  refine yields_tick.seq hP fun now _ ↦ ?_
  split
  · exact meets_raise fun _ _ _ ↦ trivial
  split
  · exact meets_raise fun _ _ _ ↦ trivial
  next habandoned =>
  -- A committed checkpoint is never recovered, so there is no lease.
  have hcommitted : current.value.committed? = none := by
    simp only [Bool.or_eq_true, not_or, Bool.not_eq_true] at habandoned
    simpa using habandoned.1.1
  refine (leased_requireStopped source).seq hP fun _ _ ↦ ?_
  split
  · exact meets_raise fun _ _ _ ↦ trivial
  refine (meets_putCurrent hP (fun w hsince ↦ hread ▸ hsince.environment)
    fun w hinv _ ↦ replaces_of_keeps hinv ?_).conseq (fun _ _ h ↦ h) (fun _ _ _ _ ↦ trivial)
      fun _ _ _ _ ↦ trivial
  exact .uncommitted (fun h ↦ h) hcommitted

theorem leased_releasePending (value : StoredEnvironment) (runId : String) :
    (snapshotSetting storageKey).Yields p (WorkspaceHandoffService.releasePending value runId)
      fun _ ↦ True := by
  unfold WorkspaceHandoffService.releasePending
  split
  · split
    · exact yields_ret trivial
    refine (yields_quietAsk (by simp)).bind fun a _ ↦
      (yields_ofExcept (F := fun _ ↦ True) fun _ _ ↦ trivial).bind fun ended _ ↦ ?_
    split
    · exact yields_raise
    refine (yields_leasedHandoffUpdate fun old ↦ ?_).bind fun _ _ ↦ yields_ret trivial
    split
    · exact meets_raise fun _ _ _ ↦ trivial
    · exact meets_ret fun _ _ _ ↦ .steady rfl rfl rfl rfl
  · exact yields_ret trivial

theorem leased_prepareReplacement (runId : String) :
    (snapshotSetting storageKey).Yields p (WorkspaceHandoffService.prepareReplacement runId)
      fun _ ↦ True := by
  refine meets_requiredRecord stable_true fun w₀ current _ _ _ ↦ ?_
  have hP : (snapshotSetting storageKey).Permanent (snapshotSpec.since w₀) :=
    RecordSpec.since_permanent w₀
  refine Yields.seq (F := fun _ ↦ True) hP ?_ fun _ _ ↦
    (leased_releasePending current.value runId).seq hP fun _ _ ↦ ?_
  · unfold WorkspaceHandoffService.requirePreviousStopped
    split
    · split
      · exact leased_requireStopped _
      · exact yields_ret trivial
    · exact yields_ret trivial
  · split
    · exact meets_ret fun _ _ _ ↦ trivial
    · split
      · exact meets_ret fun _ _ _ ↦ trivial
      · exact (leased_recover _).seq hP fun _ _ ↦ meets_ret fun _ _ _ ↦ trivial

theorem leased_prepareWorker (successor : WorkspaceExecution)
    (setupDigest policyDigest authorityDigest : String) :
    (snapshotSetting storageKey).Yields p (WorkspaceHandoffService.prepareWorker successor
      setupDigest policyDigest authorityDigest) fun _ ↦ True := by
  refine meets_requiredRecord stable_true fun w₀ current _ _ _ ↦ ?_
  have hP : (snapshotSetting storageKey).Permanent (snapshotSpec.since w₀) :=
    RecordSpec.since_permanent w₀
  split
  · split
    · exact meets_raise fun _ _ _ ↦ trivial
    · refine (yields_quietAsk (by simp)).seq hP fun attemptId _ ↦
        (leased_adopt _ _ _ _).seq hP fun _ _ ↦ ?_
      exact meets_ret fun _ _ _ ↦ trivial
  · exact (leased_bind successor).seq hP fun _ _ ↦ meets_ret fun _ _ _ ↦ trivial

theorem leased_attachManaged (runId : String) :
    (snapshotSetting storageKey).Yields p (EnvironmentService.attachManaged runId)
      fun _ ↦ True := by
  refine (leased_prepareReplacement runId).bind fun admission _ ↦
    meets_requiredRecord stable_true fun w₀ _ _ _ _ ↦ ?_
  have hP : (snapshotSetting storageKey).Permanent (snapshotSpec.since w₀) :=
    RecordSpec.since_permanent w₀
  refine (yields_quietAsk (by simp)).seq hP fun a _ ↦
    Yields.seq (F := fun _ ↦ True) hP (yields_ofExcept fun _ _ ↦ trivial) fun pi _ ↦ ?_
  exact (yields_leasedEnvironmentUpdate (keepsLeases_clockNow fun _ _ _ h ↦
    keeps_planAttach h)).pre fun _ _ _ ↦ trivial

theorem leased_managedReady (runId : String) (sandbox : ManagedSandboxGeneration)
    (piWorkspace : Option WorkspaceCompatibility) :
    (snapshotSetting storageKey).Yields p
      (EnvironmentService.managedReady runId sandbox piWorkspace) fun _ ↦ True := by
  unfold EnvironmentService.managedReady
  split
  · exact yields_raise
  · refine yields_leasedEnvironmentUpdate fun old ↦ yields_tick.andThen fun now _ ↦ ?_
    cases hready : planManagedReadiness old runId sandbox now with
    | error message => exact meets_raise fun _ _ _ ↦ trivial
    | ok ready => exact meets_ret fun _ _ _ ↦ keeps_planManagedReadiness hready

theorem leased_managedStatus (runId : String) (status : EnvironmentStatus) :
    (snapshotSetting storageKey).Yields p (EnvironmentService.managedStatus runId status)
      fun _ ↦ True := by
  refine yields_leasedEnvironmentUpdate fun old ↦ yields_tick.andThen fun now _ ↦ ?_
  cases hstatus : planManagedStatus old runId status now with
  | error message => exact meets_raise fun _ _ _ ↦ trivial
  | ok value => exact meets_ret fun _ _ _ ↦ keeps_planManagedStatus hstatus

theorem leased_retire :
    (snapshotSetting storageKey).Yields p EnvironmentService.retire fun _ ↦ True := by
  refine meets_requiredRecord stable_true fun w₀ current _ _ _ ↦ ?_
  split
  · exact meets_ret fun _ _ _ ↦ trivial
  · exact (yields_leasedEnvironmentUpdate (keepsLeases_clockNow fun _ _ _ h ↦
      keeps_planRetire h)).pre fun _ _ _ ↦ trivial

/-- The copy of a checkpoint that was published, and its size. -/
def SnapshotWorld.Published (checkpointId leaseId : String) (sizeBytes : ℕ) (w : SnapshotWorld) :
    Prop :=
  ∃ snapshot, w.records (.forkSnapshot ("snapshot_" ++ leaseId)) = some snapshot ∧
    snapshot.value.sourceCheckpointId = checkpointId ∧ snapshot.value.sizeBytes = sizeBytes

theorem permanent_published {checkpointId leaseId : String} {sizeBytes : ℕ} :
    (snapshotSetting storageKey).Permanent
      (SnapshotWorld.Published checkpointId leaseId sizeBytes) :=
  fun _ _ _ _ _ _ hg ⟨snapshot, hread, hfields⟩ ↦
    ⟨snapshot, hg.1.snapshots _ _ hread, hfields⟩

/-- The copy is published in the same transaction that ends the lease. -/
theorem meets_publishSnapshot (checkpointId leaseId : String) (sizeBytes : ℕ) :
    (snapshotSetting storageKey).Meets p (fun _ ↦ True)
      (WorkspaceHandoffService.publishSnapshot storageKey checkpointId leaseId sizeBytes)
      (fun _ ↦ SnapshotWorld.Published checkpointId leaseId sizeBytes) fun _ _ ↦ True := by
  unfold WorkspaceHandoffService.publishSnapshot
  split
  · exact meets_raise fun _ _ _ ↦ trivial
  refine RecordSpec.meets_get stable_true fun w₁ _ _ ↦
    meets_requiredRecord (RecordSpec.since_permanent w₁).stable fun w₀ current _ hsince₁ hread ↦ ?_
  have hP : (snapshotSetting storageKey).Permanent (snapshotSpec.since w₀) :=
    RecordSpec.since_permanent w₀
  split
  · next saved hsaved =>
    split
    · exact meets_raise fun _ _ _ ↦ trivial
    · next hsame =>
      simp only [Bool.or_eq_true, bne_iff_ne, not_or, ne_eq, not_not] at hsame
      exact meets_ret fun w _ hsince ↦ ⟨saved,
        hsince.snapshots _ _ (hsince₁.snapshots _ _ hsaved), hsame.1.2, hsame.2⟩
  refine yields_tick.seq hP fun now _ ↦ yields_orRefuse.seq hP fun released hreleased ↦ ?_
  obtain ⟨checkpoint, lease, hhandoff, hcheckpoint, hlease, hretired, hvalue⟩ :=
    released_planSnapshotRelease hreleased
  split
  · exact meets_raise fun _ _ _ ↦ trivial
  refine yields_tick.seq hP fun createdAt _ ↦ ?_
  refine Meets.bind (M := fun _ ↦ SnapshotWorld.Published checkpointId leaseId sizeBytes)
    ((meets_commitWrites (R := SnapshotWorld.Published checkpointId leaseId sizeBytes) hP
      fun w st hinv hsince hst ↦ ?_).conseq (fun _ _ h ↦ h) (fun _ _ _ h ↦ h.2)
        fun _ _ _ _ ↦ trivial) fun _ ↦ meets_ret fun _ _ h ↦ h
  -- The transaction has found the record with the lease, and no copy under its id.
  have hfound : w.records .environment = some current :=
    Store.commit_of_seen hst List.mem_cons_self rfl (hread ▸ hsince.environment)
  have hnone : w.records (.forkSnapshot ("snapshot_" ++ leaseId)) = none :=
    Store.eq_none_of_commit hinv.numbered hst (List.mem_cons_of_mem _ (List.mem_singleton.mpr rfl))
      rfl
  have hnew : st .environment = some ⟨current.revision + 1, released⟩ :=
    Store.commit_written hst List.mem_cons_self (by simp)
  have hcopy := Store.commit_written hst (List.mem_cons_of_mem _ (List.mem_singleton.mpr rfl))
    (by simp)
  have hother : ∀ id, id ≠ "snapshot_" ++ leaseId →
      st (.forkSnapshot id) = w.records (.forkSnapshot id) := fun id hid ↦
    Store.commit_frame hst (by simp [hid])
  refine ⟨steps_snapshotCommit hinv hst (by simp) hfound hnew (keeps_planSnapshotRelease hreleased)
    (fun id snapshot hsome ↦ ?_) fun id snapshot hmissing hsome ↦ ?_, _, hcopy, rfl, rfl⟩
  · rw [hother id (by rintro rfl; rw [hnone] at hsome; cases hsome)]
    exact hsome
  · by_cases hid : id = "snapshot_" ++ leaseId
    · subst hid
      rw [hcopy] at hsome
      cases hsome
      exact ⟨current, _, checkpoint, lease, hfound, hnew, hhandoff, hretired, hvalue,
        by rw [hlease], hcheckpoint.symm⟩
    · rw [hother id hid, hmissing] at hsome
      cases hsome

/-- What has come about when a call returns. -/
def WorkspaceCall.Done : WorkspaceCall → SnapshotWorld → Prop
  | .publishSnapshot checkpointId leaseId sizeBytes =>
    SnapshotWorld.Published checkpointId leaseId sizeBytes
  | _ => fun _ ↦ True

theorem permanent_done (call : WorkspaceCall) :
    (snapshotSetting storageKey).Permanent call.Done := by
  cases call with
  | publishSnapshot checkpointId leaseId sizeBytes => exact permanent_published
  | _ => exact fun _ _ _ _ _ _ _ _ ↦ trivial

/-- Every call keeps to the specification. -/
theorem meets_leasedBody (p : ℕ × WorkspaceCall) :
    (snapshotSetting storageKey).Meets p (fun _ ↦ True) (workspaceBody storageKey p.2)
      (fun _ ↦ p.2.Done) fun _ _ ↦ True := by
  obtain ⟨pid, call⟩ := p
  have hdiscard : ∀ {α : Type} {m : WorkspaceProg α} {F : α → Prop},
      (snapshotSetting storageKey).Yields (pid, call) m F →
        (snapshotSetting storageKey).Yields (pid, call) (discard m) fun _ ↦ True :=
    fun h ↦ h.bind fun _ _ ↦ yields_ret trivial
  cases call with
  | bind execution => exact hdiscard (leased_bind execution)
  | begin source transitionId =>
    exact hdiscard (yields_leasedHandoffUpdate (keepsLeases_begin source transitionId))
  | commit checkpoint =>
    exact hdiscard (yields_leasedHandoffUpdate (keepsLeases_clockNow fun _ _ _ h ↦
      keeps_planCheckpointWrite h))
  | adopt checkpointId successor attemptId compatibility =>
    exact hdiscard (leased_adopt _ _ _ _)
  | abort source transitionId =>
    exact hdiscard (yields_leasedHandoffUpdate (keepsLeases_orRefuse fun _ _ _ h ↦
      keeps_planHandoffAbort h))
  | recover source => exact leased_recover source
  | prepareReplacement runId => exact hdiscard (leased_prepareReplacement runId.value)
  | prepareWorker successor setupDigest policyDigest authorityDigest =>
    exact hdiscard (leased_prepareWorker _ _ _ _)
  | leaseSnapshot checkpointId durationSeconds => exact hdiscard (leased_leaseSnapshot _ _)
  | publishSnapshot checkpointId leaseId sizeBytes =>
    exact Meets.bind (meets_publishSnapshot _ _ _) fun _ ↦ meets_ret fun _ _ h ↦ h
  | releaseSnapshot checkpointId leaseId =>
    exact hdiscard (yields_leasedHandoffUpdate (keepsLeases_clockNow fun _ _ _ h ↦
      keeps_planSnapshotRelease h))
  | attachManaged runId => exact leased_attachManaged runId.value
  | managedReady runId sandbox piWorkspace => exact leased_managedReady runId sandbox piWorkspace
  | managedStatus runId status => exact leased_managedStatus runId status
  | retire => exact leased_retire

end

/-! ## Every run -/

/-- An environment for which nothing has been handed over yet. -/
structure SnapshotWorld.Opening (w : SnapshotWorld) : Prop where
  log : w.ghost.log = []
  environment : ∃ resource, w.records .environment = some resource ∧ resource.value.handoff = none
  numbered : w.records.Numbered

theorem SnapshotWorld.Opening.consistent {w : SnapshotWorld} (h : w.Opening) : w.Consistent := by
  obtain ⟨resource, hread, hhandoff⟩ := h.environment
  refine ⟨⟨resource, hread, fun checkpoint lease hleased ↦ ?_, fun before _ _ _ hlog ↦ ?_⟩,
    h.numbered⟩
  · rw [leased?_eq_some, hhandoff] at hleased
    cases hleased
  · rw [h.log] at hlog
    cases before <;> cases hlog

section

variable {storageKey : String → String → String → String} {start : SnapshotWorld}

theorem snapshotService_verified (storageKey : String → String → String → String)
    (hstart : start.Opening) :
    (snapshotSetting storageKey).Verified start (fun call _ ↦ call.Done) fun _ _ _ ↦ True where
  init := hstart.consistent
  body p := (meets_leasedBody p).pre fun _ _ _ ↦ trivial
  post_stable p _ := (permanent_done p.2).stable
  fail_stable _ _ := stable_true

abbrev SnapshotConfig : Type :=
  Config SnapshotWorld (RecordEffect WorkspaceKey WorkspaceValue WorkspaceAsk)
    (RecordEffect.Answer WorkspaceAsk.Answer) ServiceFailure Unit WorkspaceCall

/-- The environment record. -/
def SnapshotWorld.environment (w : SnapshotWorld) : Option StoredEnvironment :=
  (w.records .environment).map (·.value)

/-- What a lease promises in a configuration. -/
structure ExcludesChanges (storageKey : String → String → String → String) (c : SnapshotConfig) :
    Prop where
  /-- A lease that was granted and has not expired was given up or published, or it is the one in
  the record and nothing has happened to the workspace since; so there is at most one. -/
  held : ∀ before checkpoint lease rest,
    c.state.ghost.log = before ++ .granted checkpoint lease :: rest →
    c.state.ghost.clock < lease.expiresAt →
      .ended lease ∈ rest ∨ rest = [] ∧ ∃ value, c.state.environment = some value ∧
        value.handoff = some (.committed checkpoint (some lease))
  /-- While the lease in the record has not expired, a step leaves the workspace as it is, or gives
  up the lease. -/
  excluded : ∀ ev (c' : SnapshotConfig) old checkpoint lease, Permits snapshotDiscipline c ev →
    (snapshotService storageKey).step c ev = some c' → c.state.environment = some old →
    old.handoff = some (.committed checkpoint (some lease)) →
    c.state.ghost.clock < lease.expiresAt →
      ∃ new, c'.state.environment = some new ∧ new.retired = old.retired ∧
        new.runId = old.runId ∧ new.executionGeneration = old.executionGeneration ∧
        (new.handoff = old.handoff ∨ new.handoff = some (.committed checkpoint none))
  /-- When a copy is published, its lease is in the record, with the grant of it as the last thing
  that happened; and the checkpoint it was taken from stays in the record. -/
  published : ∀ ev (c' : SnapshotConfig) id snapshot, Permits snapshotDiscipline c ev →
    (snapshotService storageKey).step c ev = some c' →
    c.state.records (.forkSnapshot id) = none →
    c'.state.records (.forkSnapshot id) = some snapshot →
      ∃ before checkpoint lease old, id = "snapshot_" ++ lease.id ∧
        snapshot.value.sourceCheckpointId = checkpoint.id ∧
        c.state.ghost.log = before ++ [.granted checkpoint lease] ∧
        c.state.environment = some old ∧
        old.handoff = some (.committed checkpoint (some lease)) ∧
        c'.state.environment =
          some { old with handoff := some (.committed checkpoint none) }
  /-- A call that returns has published its copy, or has found it published. -/
  returned : ∀ pid checkpointId leaseId sizeBytes,
    c.procs pid = some (.publishSnapshot checkpointId leaseId sizeBytes, .ret ()) →
      ∃ snapshot, c.state.records (.forkSnapshot ("snapshot_" ++ leaseId)) = some snapshot ∧
        snapshot.value.sourceCheckpointId = checkpointId ∧ snapshot.value.sizeBytes = sizeBytes

theorem SnapshotWorld.environment_eq_some {w : SnapshotWorld} {value : StoredEnvironment} :
    w.environment = some value ↔
      ∃ resource, w.records .environment = some resource ∧ resource.value = value :=
  Option.map_eq_some_iff

/-- A snapshot lease excludes changes of the workspace, in every state of every run. -/
theorem snapshot_lease_excludes_changes (hstart : start.Opening) {c : SnapshotConfig}
    (hc : Reachable (snapshotService storageKey) snapshotDiscipline start c) :
    ExcludesChanges storageKey c := by
  have hV := snapshotService_verified storageKey hstart
  have hsound := hV.reachable hc
  have hinv : SnapshotWorld.Consistent c.state := hsound.inv
  obtain ⟨resource, hread, hfits⟩ := hinv.environment
  have hmoves : ∀ ev c', Permits snapshotDiscipline c ev →
      (snapshotService storageKey).step c ev = some c' →
        SnapshotWorld.Consistent c'.state ∧ SnapshotWorld.Moves c.state c'.state := by
    intro ev c' hpermits hstep
    obtain ⟨hsound', hsame | ⟨p, e, hguar⟩⟩ := hV.step hsound hpermits hstep
    · exact ⟨hsound'.inv, .of_same (by rw [hsame])⟩
    · exact ⟨hsound'.inv, hguar.2⟩
  refine ⟨fun before checkpoint lease rest hlog hclock ↦ ?_,
    fun ev c' old checkpoint lease hpermits hstep hold hhandoff hclock ↦ ?_,
    fun ev c' id snapshot hpermits hstep hnone hsome ↦ ?_,
    fun pid checkpointId leaseId sizeBytes hproc ↦ hsound.safe pid _ _ hproc⟩
  · refine (hfits.held before checkpoint lease rest hlog hclock).imp_right fun hheld ↦ ?_
    exact ⟨hheld.1, _, SnapshotWorld.environment_eq_some.mpr ⟨resource, hread, rfl⟩,
      leased?_eq_some.mp hheld.2⟩
  · obtain ⟨resource', hread', rfl⟩ := SnapshotWorld.environment_eq_some.mp hold
    obtain ⟨hinv', hmove⟩ := hmoves ev c' hpermits hstep
    obtain ⟨new, hnew, -⟩ := hinv'.environment
    exact ⟨new.value, SnapshotWorld.environment_eq_some.mpr ⟨new, hnew, rfl⟩,
      (hmove.keeps resource' new hread' hnew).leased checkpoint lease hhandoff hclock⟩
  · obtain ⟨-, hmove⟩ := hmoves ev c' hpermits hstep
    obtain ⟨old, new, checkpoint, lease, hold, hnew, hhandoff, hretired, hvalue, hid, hsource⟩ :=
      hmove.published id snapshot hnone hsome
    obtain rfl : resource = old := Option.some.inj (hread.symm.trans hold)
    have hlast := hfits.recorded checkpoint lease (leased?_eq_some.mpr hhandoff) hretired
    obtain ⟨before, hbefore⟩ := List.getLast?_eq_some_iff.mp hlast
    exact ⟨before, checkpoint, lease, resource.value, hid, hsource, hbefore,
      SnapshotWorld.environment_eq_some.mpr ⟨resource, hread, rfl⟩, hhandoff,
      SnapshotWorld.environment_eq_some.mpr ⟨new, hnew, hvalue⟩⟩

end

/-! ## A run -/

def sampleCheckpoint : WorkspaceCheckpoint where
  sandboxId := "sandbox"
  setupDigest := String.ofList (List.replicate 64 'a')
  policyDigest := String.ofList (List.replicate 64 'b')
  id := "checkpoint"
  piContextId := none
  nativeDurability := none
  source := ⟨"run 1", "g 1"⟩
  rootThreadId := "thread"
  lastRootTurnId := none
  lastNativeTurnId := none
  reason := "hibernate"
  authorityDigest := none
  createdAt := 0

def sampleLeases : SnapshotWorld := ⟨sampleWorkspace.records, ⟨[], 0⟩⟩

theorem sampleLeases_opening : sampleLeases.Opening := by
  refine ⟨rfl, ⟨⟨1, sampleEnvironment⟩, rfl, rfl⟩, fun k v hv ↦ ?_⟩
  cases k with
  | environment =>
    cases hv
    exact Nat.one_pos
  | forkSnapshot id => cases hv

/-- A checkpoint is committed and leased. Retiring the environment is refused meanwhile, and the
copy is published. -/
def samplePublication : List (Event WorkspaceCall (RecordChoice WorkspaceChoice)) :=
  [.start 0 (.bind ⟨"run 1", "g 1"⟩), .start 1 (.begin ⟨"run 1", "g 1"⟩ "checkpoint"),
    .start 2 (.commit sampleCheckpoint), .start 3 (.leaseSnapshot "checkpoint" 60),
    .start 4 .retire, .start 5 (.publishSnapshot "checkpoint" "lease" 1)] ++
  [0, 0, 1, 1, 1, 1, 2, 2, 2, 3, 3, 3, 3, 3, 4, 4, 4, 5, 5, 5, 5, 5].map fun pid ↦
    .resume pid ⟨{ clock := 10, uuid := "lease" }, .acknowledged⟩

/-- The copy that was published in that run is that of the checkpoint. -/
theorem samplePublication_copied :
    ∃ c, (snapshotService sampleStorageKey).run snapshotDiscipline samplePublication
        (.initial sampleLeases) = some c ∧
      ∃ snapshot, c.state.records (.forkSnapshot ("snapshot_" ++ "lease")) = some snapshot ∧
        snapshot.value.sourceCheckpointId = "checkpoint" ∧ snapshot.value.sizeBytes = 1 := by
  have hrun : ((snapshotService sampleStorageKey).run snapshotDiscipline samplePublication
      (.initial sampleLeases)).map (fun c ↦ c.outcome 5) =
        some (some (.publishSnapshot "checkpoint" "lease" 1, some (.ok ()))) := by decide +kernel
  obtain ⟨c, hc, hended⟩ := Option.map_eq_some_iff.mp hrun
  have hlease := snapshot_lease_excludes_changes sampleLeases_opening (Service.leads_of_run hc)
  exact ⟨c, hc, hlease.returned 5 _ _ _ (Config.procs_of_outcome hended)⟩

end RatThings
