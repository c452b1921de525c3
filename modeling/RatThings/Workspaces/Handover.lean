import Mathlib.Data.List.Infix
import RatThings.Workspaces.Service

/-!
# A workspace has one writer

The bound execution of an environment record is the one that may write to the workspace. It is
replaced only once it has let go: it committed a checkpoint, or it is known to have stopped. This
module proves it of one change of the record, for each of the planners.

## The invariant

What makes it inductive is that a hand-off always speaks of the bound execution
(`WorkspaceHistory.Fits`), so clearing or consuming the hand-off releases the right one. The history
numbers the checkpoints that were committed, and an adoption remembers the number of its own. A
checkpoint that is in the record is the last one, and no adoption has its number yet; consuming it
uses the number up.

`WorkspaceHistory.Moves` says what every planner may do to the record, and there is one lemma for
each planner. A planner that replaces the attached run needs more than the record: the replacement
was decided on an earlier one, and `WorkspaceHistory.Admissible` is what was found out then.
-/

namespace RatThings

open Concurrent Service Setting

/-! ## Released executions -/

/-- The execution that may write, once a run and a generation are both named. -/
def StoredEnvironment.bound (value : StoredEnvironment) : Option WorkspaceExecution :=
  match value.runId, value.executionGeneration with
  | some runId, some generation => some ⟨runId, generation⟩
  | _, _ => none

/-- The execution has committed a checkpoint, or is known to have stopped. -/
def WorkspaceHistory.Released (history : WorkspaceHistory)
    (execution : WorkspaceExecution) : Prop :=
  execution ∈ history.stopped ∨ ∃ checkpoint ∈ history.commits, checkpoint.source = execution

theorem bound_eq_some {value : StoredEnvironment} {execution : WorkspaceExecution} :
    value.bound = some execution ↔ value.runId = some execution.runId ∧
      value.executionGeneration = some execution.generation := by
  unfold StoredEnvironment.bound
  cases value.runId <;> cases value.executionGeneration <;> cases execution <;> simp

theorem bound_of_authority {value : StoredEnvironment} {execution : WorkspaceExecution}
    (h : authority value execution = .ok ()) :
    value.bound = some execution ∧ execution.generation ≠ "" := by
  obtain ⟨⟨⟩, -, h⟩ := eq_ok_of_bind h
  split at h
  · cases h
  · next hsame =>
    simp only [Bool.or_eq_true, bne_iff_ne, beq_iff_eq, not_or, ne_eq, not_not] at hsame
    exact ⟨bound_eq_some.mpr hsame.1, hsame.2⟩

/-! ## The invariant -/

/-- The record and its history fit together. -/
structure WorkspaceHistory.Fits (history : WorkspaceHistory) (value : StoredEnvironment) :
    Prop where
  runId : value.runId ≠ some ""
  generation : value.executionGeneration ≠ some ""
  /-- A hand-off speaks of the bound execution. -/
  holder : ∀ handoff, value.handoff = some handoff → value.bound = some handoff.holder
  /-- A committed checkpoint is the last one, and nobody has consumed it. -/
  committed : ∀ checkpoint, value.committed? = some checkpoint →
    history.commits.getLast? = some checkpoint ∧
      ∀ adoption ∈ history.adoptions, adoption.commit < history.commits.length
  /-- Adoptions are of checkpoints that had been committed. -/
  adopted : ∀ adoption ∈ history.adoptions, adoption.commit ≤ history.commits.length ∧
    history.commits[adoption.commit - 1]? = some adoption.checkpoint
  /-- No checkpoint was adopted twice. -/
  once : ∀ a ∈ history.adoptions, ∀ b ∈ history.adoptions, a.commit = b.commit → a = b

/-- The writer of a committed checkpoint is the bound execution. -/
theorem WorkspaceHistory.Fits.bound_of_committed {history : WorkspaceHistory}
    {value : StoredEnvironment} {checkpoint : WorkspaceCheckpoint} (h : history.Fits value)
    (hcommitted : value.committed? = some checkpoint) :
    value.bound = some checkpoint.source := by
  unfold StoredEnvironment.committed? at hcommitted
  split at hcommitted
  · next hhandoff =>
    cases hcommitted
    exact h.holder _ hhandoff
  · cases hcommitted

/-- While a checkpoint is committed, the bound execution has let go. -/
theorem WorkspaceHistory.Fits.released {history : WorkspaceHistory} {value : StoredEnvironment}
    {execution : WorkspaceExecution} (h : history.Fits value) (hcommitted : value.committed?.isSome)
    (hbound : value.bound = some execution) : history.Released execution := by
  obtain ⟨checkpoint, hc⟩ := Option.isSome_iff_exists.mp hcommitted
  have hmem : checkpoint ∈ history.commits := List.mem_of_getLast? (h.committed checkpoint hc).1
  have hsource : value.bound = some checkpoint.source := h.bound_of_committed hc
  exact .inr ⟨checkpoint, hmem, Option.some.inj (hsource.symm.trans hbound)⟩

/-- What a change of the record does: the history still fits, and an execution that is no longer
bound has let go. -/
structure WorkspaceHistory.Moves (history : WorkspaceHistory) (old new : StoredEnvironment) :
    Prop where
  fits : (history.observe old new).Fits new
  released : ∀ execution, old.bound = some execution →
    new.bound = some execution ∨ history.Released execution

/-! ## The planners -/

section

variable {history : WorkspaceHistory} {old new : StoredEnvironment}

theorem observe_eq (hcommitted : new.committed? = old.committed?)
    (hconsumed : new.consumed? = old.consumed?) : history.observe old new = history := by
  simp [WorkspaceHistory.observe, hcommitted, hconsumed]

/-- A change that leaves the hand-off as it stands. -/
theorem WorkspaceHistory.Fits.steady (h : history.Fits old) (hrun : new.runId = old.runId)
    (hgeneration : new.executionGeneration = old.executionGeneration)
    (hholder : new.handoff.map WorkspaceHandoff.holder = old.handoff.map WorkspaceHandoff.holder)
    (hcommitted : new.committed? = old.committed?) (hconsumed : new.consumed? = old.consumed?) :
    history.Moves old new := by
  have hbound : new.bound = old.bound := by
    rw [StoredEnvironment.bound, hrun, hgeneration]
    rfl
  refine ⟨?_, fun execution he ↦ .inl (hbound.trans he)⟩
  rw [observe_eq hcommitted hconsumed]
  refine ⟨hrun ▸ h.runId, hgeneration ▸ h.generation, fun handoff hnew ↦ ?_,
    fun checkpoint hc ↦ h.committed checkpoint (hcommitted ▸ hc), h.adopted, h.once⟩
  rw [hnew, Option.map_some, eq_comm, Option.map_eq_some_iff] at hholder
  obtain ⟨handoff', hold, heq⟩ := hholder
  rw [hbound, ← heq]
  exact h.holder handoff' hold

theorem WorkspaceHistory.Fits.same (h : history.Fits old) : history.Moves old old :=
  h.steady rfl rfl rfl rfl rfl

/-- A change that puts no checkpoint into the record. -/
theorem WorkspaceHistory.Fits.clear (h : history.Fits old) (hrun : new.runId ≠ some "")
    (hgeneration : new.executionGeneration ≠ some "")
    (hholder : ∀ handoff, new.handoff = some handoff → new.bound = some handoff.holder)
    (hcommitted : new.committed? = none) (hconsumed : new.consumed? = none)
    (hreleased : ∀ execution, old.bound = some execution →
      new.bound = some execution ∨ history.Released execution) : history.Moves old new := by
  have hobserve : history.observe old new = history := by
    simp [WorkspaceHistory.observe, hcommitted, hconsumed]
  refine ⟨?_, hreleased⟩
  rw [hobserve]
  refine ⟨hrun, hgeneration, hholder, fun checkpoint hc ↦ ?_, h.adopted, h.once⟩
  rw [hcommitted] at hc
  cases hc

theorem moves_planBind {execution : WorkspaceExecution} (h : history.Fits old)
    (hplan : planBind old execution = .ok new) : history.Moves old new := by
  unfold planBind at hplan
  split at hplan
  · cases hplan
  next hcan =>
  simp only [Bool.or_eq_true, Bool.and_eq_true, bne_iff_ne, beq_iff_eq, not_or, not_and, ne_eq,
    not_not, Bool.not_eq_true] at hcan
  obtain ⟨⟨⟨⟨⟨-, hgeneration⟩, -⟩, -⟩, hhandoff⟩, hother⟩ := hcan
  split at hplan
  · cases hplan
    exact h.same
  · next hne =>
    cases hplan
    have hnone : old.executionGeneration = none := by
      cases hold : old.executionGeneration with
      | none => rfl
      | some generation =>
        have hset : isSet old.executionGeneration := by
          rw [hold, isSet_some, bne_iff_ne]
          rintro rfl
          exact h.generation hold
        exact absurd (hother hset) hne
    refine h.clear h.runId (by simpa using hgeneration) ?_ ?_ ?_ fun execution he ↦ ?_
    · simp_all
    · simp_all [StoredEnvironment.committed?]
    · simp_all [StoredEnvironment.consumed?]
    · rw [bound_eq_some, hnone] at he
      cases he.2

theorem moves_planHandoffBegin {source : WorkspaceExecution} {id : String} {now expiresAt : ℕ}
    (h : history.Fits old) (hplan : planHandoffBegin old source id now expiresAt = .ok new) :
    history.Moves old new := by
  obtain ⟨⟨⟩, hauthority, hplan⟩ := eq_ok_of_bind hplan
  obtain ⟨hbound, -⟩ := bound_of_authority hauthority
  have hnext : history.Moves old { old with
      handoff := some (.quiescing id source expiresAt)
      status := .disconnected
      connectedUntil := some 0 } := by
    refine h.clear h.runId h.generation (fun handoff hh ↦ ?_) rfl rfl fun execution he ↦ .inl he
    cases hh
    exact hbound
  split at hplan
  · cases hplan
  dsimp only at hplan
  split at hplan
  · split at hplan <;> cases hplan
    exact h.same
  · cases hplan
  · cases hplan
  · cases hplan
    exact hnext
  · cases hplan
    exact hnext

theorem moves_planCheckpointWrite {checkpoint : WorkspaceCheckpoint} {now : ℕ}
    (h : history.Fits old) (hplan : planCheckpointWrite old checkpoint now = .ok new) :
    history.Moves old new := by
  obtain ⟨⟨⟩, hauthority, hplan⟩ := eq_ok_of_bind hplan
  obtain ⟨hbound, -⟩ := bound_of_authority hauthority
  split at hplan
  · split at hplan <;> cases hplan
    exact h.same
  · next id source expiresAt hhandoff =>
    split at hplan
    · cases hplan
    split at hplan
    · cases hplan
    cases hplan
    have hold : old.committed? = none := by simp [StoredEnvironment.committed?, hhandoff]
    have hobserve : history.observe old { old with
        handoff := some (.committed checkpoint none)
        status := .disconnected
        connectedUntil := some 0 } =
        { history with commits := history.commits ++ [checkpoint] } := by
      simp [WorkspaceHistory.observe, StoredEnvironment.committed?, StoredEnvironment.consumed?,
        hhandoff]
    refine ⟨?_, fun execution he ↦ .inl he⟩
    rw [hobserve]
    refine ⟨h.runId, h.generation, fun handoff hh ↦ ?_, fun checkpoint' hc ↦ ?_,
      fun adoption ha ↦ ?_, h.once⟩
    · cases hh
      exact hbound
    · cases hc
      refine ⟨by simp, fun adoption ha ↦ ?_⟩
      have := (h.adopted adoption ha).1
      simp only [List.length_append, List.length_singleton]
      omega
    · -- What was adopted before is where it was.
      obtain ⟨hle, hget⟩ := h.adopted adoption ha
      refine ⟨by simp only [List.length_append, List.length_singleton]; omega, ?_⟩
      rw [List.getElem?_append_left (List.getElem?_eq_some_iff.mp hget).1]
      exact hget
  · cases hplan

theorem moves_planCheckpointAdoption {checkpointId : String} {successor : WorkspaceExecution}
    {attemptId : String} {compatibility : WorkspaceCompatibility} {now : ℕ} (h : history.Fits old)
    (hplan : planCheckpointAdoption old checkpointId successor attemptId compatibility now =
      .ok new) : history.Moves old new := by
  obtain ⟨⟨⟩, -, hplan⟩ := eq_ok_of_bind hplan
  split at hplan
  · cases hplan
  next hvalid =>
  simp only [Bool.or_eq_true, beq_iff_eq, not_or] at hvalid
  split at hplan
  · obtain ⟨⟨⟩, -, hplan⟩ := eq_ok_of_bind hplan
    split at hplan
    · obtain ⟨⟨⟩, -, hplan⟩ := eq_ok_of_bind hplan
      cases hplan
      exact h.same
    · cases hplan
  · next checkpoint snapshotLease hhandoff =>
    obtain ⟨⟨⟩, -, hplan⟩ := eq_ok_of_bind hplan
    obtain ⟨⟨⟩, hauthority, hplan⟩ := eq_ok_of_bind hplan
    obtain ⟨hbound, -⟩ := bound_of_authority hauthority
    split at hplan
    · cases hplan
    split at hplan
    · cases hplan
    split at hplan
    · cases hplan
    cases hplan
    have hcommitted : old.committed? = some checkpoint := by
      simp [StoredEnvironment.committed?, hhandoff]
    obtain ⟨hlast, hearlier⟩ := h.committed checkpoint hcommitted
    have hmem : checkpoint ∈ history.commits := List.mem_of_getLast? hlast
    have hobserve : history.observe old { old with
        pendingRunId := none
        runId := some successor.runId
        executionGeneration := some successor.generation
        status := .pending
        connectedUntil := some 0
        handoff := some (.consumed checkpoint successor attemptId) } =
        { history with adoptions := history.adoptions ++
          [⟨history.commits.length, checkpoint, successor, attemptId⟩] } := by
      simp [WorkspaceHistory.observe, StoredEnvironment.committed?, StoredEnvironment.consumed?,
        hhandoff]
    refine ⟨?_, fun execution he ↦ .inr (.inr ⟨checkpoint, hmem, ?_⟩)⟩
    · rw [hobserve]
      refine ⟨by simpa using hvalid.1.1, by simpa using hvalid.1.2, fun handoff hh ↦ ?_,
        fun _ hc ↦ (nomatch hc), fun adoption ha ↦ ?_, fun a ha b hb hab ↦ ?_⟩
      · cases hh
        rfl
      · rcases List.mem_append.mp ha with ha | ha
        · exact h.adopted adoption ha
        · rw [List.mem_singleton.mp ha, ← List.getLast?_eq_getElem?]
          exact ⟨le_rfl, hlast⟩
      · -- Every earlier adoption was of an earlier checkpoint.
        rcases List.mem_append.mp ha with ha | ha <;> rcases List.mem_append.mp hb with hb | hb
        · exact h.once a ha b hb hab
        · have hlt := hearlier a ha
          rw [List.mem_singleton.mp hb] at hab
          exact absurd hab hlt.ne
        · have hlt := hearlier b hb
          rw [List.mem_singleton.mp ha] at hab
          exact absurd hab.symm hlt.ne
        · rw [List.mem_singleton.mp ha, List.mem_singleton.mp hb]
    · rw [hbound] at he
      exact Option.some.inj he
  · cases hplan

theorem moves_planHandoffAbort {source : WorkspaceExecution} {id : String} (h : history.Fits old)
    (hplan : planHandoffAbort old source id = .ok new) : history.Moves old new := by
  obtain ⟨⟨⟩, hauthority, hplan⟩ := eq_ok_of_bind hplan
  obtain ⟨hbound, -⟩ := bound_of_authority hauthority
  split at hplan
  · split at hplan <;> cases hplan
    exact h.same
  · split at hplan
    · cases hplan
    cases hplan
    refine h.clear h.runId h.generation (fun handoff hh ↦ ?_) rfl rfl fun execution he ↦ .inl he
    cases hh
    exact hbound
  · cases hplan

theorem moves_planSnapshotLease {checkpointId : String} {lease : SnapshotLease} {now : ℕ}
    (h : history.Fits old) (hplan : planSnapshotLease old checkpointId lease now = .ok new) :
    history.Moves old new := by
  obtain ⟨⟨⟩, -, hplan⟩ := eq_ok_of_bind hplan
  split at hplan
  · next checkpoint snapshotLease hhandoff =>
    have hnext : history.Moves old
        { old with handoff := some (.committed checkpoint (some lease)) } := by
      refine h.steady rfl rfl ?_ ?_ ?_
      · simp [hhandoff, WorkspaceHandoff.holder]
      · simp [hhandoff, StoredEnvironment.committed?]
      · simp [hhandoff, StoredEnvironment.consumed?]
    split at hplan
    · cases hplan
    split at hplan
    · cases hplan
    dsimp only at hplan
    split at hplan
    · cases hplan
      exact hnext
    · split at hplan
      · split at hplan <;> cases hplan
        exact h.same
      · split at hplan <;> cases hplan
        exact hnext
  · cases hplan

theorem moves_planSnapshotRelease {checkpointId leaseId : String} {now : ℕ}
    (h : history.Fits old) (hplan : planSnapshotRelease old checkpointId leaseId now = .ok new) :
    history.Moves old new := by
  obtain ⟨⟨⟩, -, hplan⟩ := eq_ok_of_bind hplan
  split at hplan
  · next checkpoint held hhandoff =>
    split at hplan <;> cases hplan
    refine h.steady rfl rfl ?_ ?_ ?_
    · simp [hhandoff, WorkspaceHandoff.holder]
    · simp [hhandoff, StoredEnvironment.committed?]
    · simp [hhandoff, StoredEnvironment.consumed?]
  · cases hplan

theorem moves_planManagedReadiness {runId : String} {sandbox : ManagedSandboxGeneration} {now : ℕ}
    {piWorkspace : Option WorkspaceCompatibility} (h : history.Fits old)
    (hplan : planManagedReadiness old runId sandbox now = .ok new) :
    history.Moves old { new with piWorkspace } := by
  unfold planManagedReadiness at hplan
  split at hplan
  · cases hplan
  dsimp only at hplan
  split at hplan <;> cases hplan <;> exact h.steady rfl rfl rfl rfl rfl

theorem moves_planManagedStatus {runId : String} {status : EnvironmentStatus} {now : ℕ}
    (h : history.Fits old) (hplan : planManagedStatus old runId status now = .ok new) :
    history.Moves old new := by
  unfold planManagedStatus at hplan
  split at hplan
  · cases hplan
  dsimp only at hplan
  split at hplan
  · cases hplan
    exact h.steady rfl rfl rfl rfl rfl
  · cases hplan
    exact h.steady rfl rfl rfl rfl rfl
  · split at hplan <;> cases hplan
    exact h.same

theorem moves_planRetire {now : ℕ} (h : history.Fits old) (hplan : planRetire old now = .ok new) :
    history.Moves old new := by
  unfold planRetire at hplan
  dsimp only at hplan
  split at hplan
  · split at hplan <;> cases hplan
    exact h.steady rfl rfl rfl rfl rfl
  · cases hplan
    exact h.steady rfl rfl rfl rfl rfl

/-- What a replacement was decided on is safe to replace by this run. -/
def WorkspaceHistory.Admissible (history : WorkspaceHistory) (runId : String)
    (admission : WorkspaceAdmission) : Prop :=
  ∀ execution : WorkspaceExecution, admission.runId = some execution.runId →
    admission.executionGeneration = some execution.generation → execution.runId ≠ runId →
      history.Released execution

theorem moves_planAttach {runId : String} {admission : WorkspaceAdmission} {pi : Bool} {now : ℕ}
    (h : history.Fits old) (hrunId : runId ≠ "") (hadmissible : history.Admissible runId admission)
    (hplan : planAttach old runId admission pi now = .ok new) : history.Moves old new := by
  unfold planAttach at hplan
  split at hplan
  · cases hplan
  next hadmission =>
  simp only [Bool.or_eq_true, bne_iff_ne, not_or, ne_eq, not_not] at hadmission
  split at hplan
  · cases hplan
  split at hplan
  · cases hplan
  split at hplan
  · cases hplan
    exact h.same
  next hother =>
  split at hplan
  · next hhandoff =>
    cases hplan
    refine h.clear (by simpa using hrunId) (by simp) (fun handoff hh ↦ ?_) ?_ ?_
      fun execution he ↦ .inr ?_
    · rw [hhandoff] at hh
      cases hh
    · simp [StoredEnvironment.committed?, hhandoff]
    · simp [StoredEnvironment.consumed?, hhandoff]
    · obtain ⟨hrun, hgeneration⟩ := bound_eq_some.mp he
      refine hadmissible execution (hadmission.1 ▸ hrun) (hadmission.2 ▸ hgeneration) ?_
      rintro rfl
      exact hother hrun
  · split at hplan
    · cases hplan
    split at hplan
    · cases hplan
    cases hplan
    exact h.steady rfl rfl rfl rfl rfl
  · cases hplan

/-- Recovery clears a hand-off whose holder is known to have stopped. -/
theorem moves_recover {handoff : WorkspaceHandoff} (h : history.Fits old)
    (hhandoff : old.handoff = some handoff) (hstopped : handoff.holder ∈ history.stopped) :
    history.Moves old { old with
      handoff := none
      executionGeneration := none
      status := .disconnected
      connectedUntil := some 0 } := by
  refine h.clear h.runId (by simp) (fun _ hh ↦ (nomatch hh)) rfl rfl fun execution he ↦ .inr ?_
  have hbound : old.bound = some handoff.holder := h.holder handoff hhandoff
  rw [hbound] at he
  cases he
  exact .inl hstopped

end

end RatThings
