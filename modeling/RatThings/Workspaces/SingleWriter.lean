import RatThings.Workspaces.Handover
import RatThings.Workspaces.Update

/-!
# A workspace has one writer in every run

The callers of the hand-off service and of the environment service run at the same time, and each of
their steps may be the last. This module carries what one change of the environment record does
over to every run of them.

## The construction

Every caller is verified against what the others may do. Between its requests it knows that the
world came after the one it read (`WorkspaceWorld.Since`), and with that a compare-and-swap that
succeeds has found the record that its plan was made from. So a plan is judged by the record that
it was made from alone (`Plans`), and the calls are verified by one rule about retried updates.

The one decision that is carried over from another record is the admission of a replacement: the
run and the generation it was decided on are compared again when the run is attached.

## The invariant

The record fits its history (`WorkspaceWorld.Consistent`), and a step hands the workspace over only
from an execution that had let go (`WorkspaceWorld.HandsOver`). That an execution has let go is a
fact about the history, of which nothing is ever taken out.
-/

namespace RatThings

open Concurrent Service Setting

/-! ## The specification -/

/-- Nothing is ever taken out of the history. -/
structure WorkspaceHistory.Extends (history history' : WorkspaceHistory) : Prop where
  stopped : history.stopped ⊆ history'.stopped
  commits : history.commits ⊆ history'.commits

theorem WorkspaceHistory.Extends.refl (history : WorkspaceHistory) : history.Extends history :=
  ⟨List.Subset.refl _, List.Subset.refl _⟩

theorem WorkspaceHistory.Extends.trans {a b c : WorkspaceHistory} (h : a.Extends b)
    (h' : b.Extends c) : a.Extends c :=
  ⟨List.Subset.trans h.stopped h'.stopped, List.Subset.trans h.commits h'.commits⟩

theorem WorkspaceHistory.Released.mono {a b : WorkspaceHistory} {execution : WorkspaceExecution}
    (h : a.Released execution) (hext : a.Extends b) : b.Released execution := by
  rcases h with hstopped | ⟨checkpoint, hmem, heq⟩
  · exact .inl (hext.stopped hstopped)
  · exact .inr ⟨checkpoint, hext.commits hmem, heq⟩

theorem WorkspaceHistory.Admissible.mono {a b : WorkspaceHistory} {runId : String}
    {admission : WorkspaceAdmission} (h : a.Admissible runId admission) (hext : a.Extends b) :
    b.Admissible runId admission :=
  fun execution hrun hgeneration hne ↦ (h execution hrun hgeneration hne).mono hext

theorem extends_observe (history : WorkspaceHistory) (old new : StoredEnvironment) :
    history.Extends (history.observe old new) :=
  ⟨List.Subset.refl _, List.subset_append_left _ _⟩

abbrev WorkspaceWorld : Type := RecordWorld WorkspaceKey WorkspaceValue WorkspaceHistory

/-- There is an environment record, and the history fits it. -/
def WorkspaceWorld.Consistent (w : WorkspaceWorld) : Prop :=
  ∃ resource, w.records .environment = some resource ∧ w.ghost.Fits resource.value

/-- `w'` came after `w`. -/
structure WorkspaceWorld.Since (w w' : WorkspaceWorld) : Prop where
  records : ∀ k, (w.records k).Precedes (w'.records k)
  ghost : w.ghost.Extends w'.ghost

/-- An execution that was bound still is, unless it had let go. -/
def WorkspaceWorld.HandsOver (w w' : WorkspaceWorld) : Prop :=
  ∀ old new, w.records .environment = some old → w'.records .environment = some new →
    ∀ execution, old.value.bound = some execution →
      new.value.bound = some execution ∨ w.ghost.Released execution

theorem WorkspaceWorld.HandsOver.of_same {w w' : WorkspaceWorld}
    (h : w'.records .environment = w.records .environment) : w.HandsOver w' := by
  intro old new hold hnew execution he
  rw [h, hold] at hnew
  cases hnew
  exact .inl he

def workspaceSpec : RecordSpec WorkspaceKey WorkspaceValue WorkspaceHistory WorkspaceCall where
  inv := WorkspaceWorld.Consistent
  since := WorkspaceWorld.Since
  allowed _ := WorkspaceWorld.HandsOver
  since_refl _ := ⟨fun _ ↦ .refl _, .refl _⟩
  since_trans h h' := ⟨fun k ↦ (h.records k).trans (h'.records k), h.ghost.trans h'.ghost⟩
  allowed_refl _ _ := .of_same rfl

section

variable {storageKey : String → String → String → String} {p : ℕ × WorkspaceCall}

/-- The proof setting of the service. Nothing is asked of its environment. -/
abbrev workspaceSetting (storageKey : String → String → String → String) :=
  workspaceSpec.setting workspaceSurroundings (workspaceBody storageKey) .free

/-- What is known of the history stays true. -/
theorem ghost_permanent {F : WorkspaceHistory → Prop} (hF : ∀ {a b}, F a → a.Extends b → F b) :
    (workspaceSetting storageKey).Permanent fun w ↦ F w.ghost :=
  fun _ _ _ _ _ _ hg h ↦ hF h hg.1.ghost

/-! ## Requests -/

/-- A commit that changes the environment record as a plan says. -/
theorem steps_commit {w : WorkspaceWorld} {ws : List (Write WorkspaceKey WorkspaceValue)}
    {st : WorkspaceStore} {old : Versioned StoredEnvironment} {value : StoredEnvironment} {n : ℕ}
    (h : w.records.commit ws = some st) (hkeep : ∀ write ∈ ws, write.value.isSome)
    (hold : w.records .environment = some old) (hnew : st .environment = some ⟨n, value⟩)
    (hmoves : w.ghost.Moves old.value value) :
    workspaceSpec.Steps p w ⟨st, workspaceSurroundings.observe p.1 w.records st w.ghost⟩ := by
  have hobserve : workspaceSurroundings.observe p.1 w.records st w.ghost =
      w.ghost.observe old.value value := by
    simp only [workspaceSurroundings, hold, hnew]
  rw [hobserve]
  refine ⟨⟨_, hnew, hmoves.fits⟩,
    ⟨Store.precedes_of_commit h hkeep, extends_observe _ _ _⟩, fun old' new hold' hnew' ↦ ?_⟩
  obtain rfl : old = old' := Option.some.inj (hold.symm.trans hold')
  obtain rfl : (⟨n, value⟩ : Versioned StoredEnvironment) = new :=
    Option.some.inj (hnew.symm.trans hnew')
  exact hmoves.released

theorem yields_clockNow : (workspaceSetting storageKey).Yields p clockNow fun _ ↦ True :=
  (RecordSpec.yields_ask fun _ _ _ _ h ↦ (Prod.mk.inj (Option.some.inj h)).2.symm).forget

theorem yields_randomUUID : (workspaceSetting storageKey).Yields p
    (Prog.perform (RecordEffect.ask WorkspaceAsk.randomUUID) : WorkspaceProg String)
    fun _ ↦ True :=
  (RecordSpec.yields_ask fun _ _ _ _ h ↦ (Prod.mk.inj (Option.some.inj h)).2.symm).forget

theorem yields_runEnded {runId : String} : (workspaceSetting storageKey).Yields p
    (Prog.perform (RecordEffect.ask (WorkspaceAsk.runEnded runId)) :
      WorkspaceProg (Except ServiceFailure Bool)) fun _ ↦ True :=
  (RecordSpec.yields_ask fun _ _ _ _ h ↦ (Prod.mk.inj (Option.some.inj h)).2.symm).forget

theorem yields_piRecoveryAllowed : (workspaceSetting storageKey).Yields p
    (Prog.perform (RecordEffect.ask WorkspaceAsk.piRecoveryAllowed) :
      WorkspaceProg (Except ServiceFailure Bool)) fun _ ↦ True :=
  (RecordSpec.yields_ask fun _ _ _ _ h ↦ (Prod.mk.inj (Option.some.inj h)).2.symm).forget

theorem WorkspaceHistory.Fits.stop {history : WorkspaceHistory} {value : StoredEnvironment}
    (h : history.Fits value) (stopped : List WorkspaceExecution) :
    WorkspaceHistory.Fits { history with stopped } value :=
  ⟨h.runId, h.generation, h.holder, h.committed, h.adopted, h.once⟩

theorem meets_requireStopped {source : WorkspaceExecution} {P : WorkspaceWorld → Prop}
    (hP : (workspaceSetting storageKey).Permanent P) :
    (workspaceSetting storageKey).Meets p P (requireStopped source)
      (fun _ w ↦ P w ∧ source ∈ w.ghost.stopped) fun _ _ ↦ True := by
  have hask : (workspaceSetting storageKey).Meets p P
      (Prog.perform (RecordEffect.ask (WorkspaceAsk.sourceStopped source)) :
        WorkspaceProg (Except ServiceFailure Bool))
      (fun a w ↦ P w ∧ (a = .ok true → source ∈ w.ghost.stopped)) fun _ _ ↦ True := by
    refine RecordSpec.meets_ask hP fun w x a g hinv hp _ ha ↦ ?_
    obtain ⟨rfl, rfl⟩ := Prod.mk.inj (Option.some.inj ha)
    obtain ⟨resource, hread, hfits⟩ := hinv
    split
    · refine ⟨⟨⟨resource, hread, hfits.stop _⟩, ⟨fun _ ↦ .refl _, ?_⟩, .of_same rfl⟩, fun _ ↦ ?_⟩
      · exact ⟨List.subset_append_left _ _, List.Subset.refl _⟩
      · exact List.mem_append_right _ (List.mem_singleton.mpr rfl)
    · next hno => exact ⟨RecordSpec.steps_refl ⟨resource, hread, hfits⟩, fun h ↦ absurd h hno⟩
  refine Meets.bind hask fun a ↦ ?_
  rcases a with failure | answer
  · exact meets_raise fun _ _ _ ↦ trivial
  · rcases answer with _ | _
    · exact meets_raise fun _ _ _ ↦ trivial
    · exact meets_ret fun w _ hw ↦ ⟨hw.1, hw.2 rfl⟩

/-- The record that was read is replaced as planned. -/
theorem meets_putEnvironment {P : WorkspaceWorld → Prop} {current : Versioned StoredEnvironment}
    {value : StoredEnvironment} (hP : (workspaceSetting storageKey).Permanent P)
    (hread : ∀ w, P w → Slot.Precedes (some current) (w.records .environment))
    (hmoves : ∀ w, P w → w.ghost.Fits current.value → w.ghost.Moves current.value value) :
    (workspaceSetting storageKey).Meets p P (putEnvironment current value) (fun _ _ ↦ True)
      fun _ ↦ P := by
  refine meets_putCurrent hP hread fun w hinv hp hfound st hst hnew ↦ ?_
  obtain ⟨resource, hresource, hfits⟩ := hinv
  obtain rfl : resource = current := Option.some.inj (hresource.symm.trans hfound)
  exact steps_commit hst (by simp) hresource hnew (hmoves w hp hfits)

/-! ## Updates -/

/-- A plan decides without looking at the record again, and what it decides is safe to do. -/
def Plans (storageKey : String → String → String → String) (p : ℕ × WorkspaceCall)
    (G : WorkspaceHistory → Prop) (plan : StoredEnvironment → WorkspaceProg StoredEnvironment) :
    Prop :=
  ∀ old, (workspaceSetting storageKey).Yields p (plan old) fun value ↦
    ∀ history : WorkspaceHistory, G history → history.Fits old → history.Moves old value

variable {G : WorkspaceHistory → Prop} {plan : StoredEnvironment → WorkspaceProg StoredEnvironment}

theorem plans_orRefuse {planner : StoredEnvironment → Except AgentsApiError StoredEnvironment}
    (h : ∀ history old value, G history → history.Fits old → planner old = .ok value →
      history.Moves old value) : Plans storageKey p G fun value ↦ orRefuse (planner value) :=
  fun old ↦ yields_orRefuse.mono fun value hplan history hG hfits ↦
    h history old value hG hfits hplan

/-- A plan that reads the clock first. -/
theorem plans_clockNow {plan : ℕ → StoredEnvironment → WorkspaceProg StoredEnvironment}
    (h : ∀ now, Plans storageKey p G (plan now)) :
    Plans storageKey p G fun value ↦ clockNow >>= fun now ↦ plan now value :=
  fun old ↦ yields_clockNow.bind fun now _ ↦ h now old

theorem Plans.safe (hG : ∀ {a b : WorkspaceHistory}, G a → a.Extends b → G b)
    (hplan : Plans storageKey p G plan) :
    SafePlan workspaceSpec workspaceSurroundings (workspaceBody storageKey) .free p
      (fun w ↦ G w.ghost) (fun old value _ ↦ ∀ history : WorkspaceHistory, G history →
        history.Fits old → history.Moves old value) plan where
  assumed _ _ hsince hg := hG hg hsince.ghost
  decided _ _ _ _ _ h := h
  since _ _ hsince := hsince.records _
  plans old := (hplan old).conseq (fun _ _ _ ↦ trivial) (fun _ _ _ h ↦ h) fun _ _ _ _ ↦ trivial
  replaces w current value hinv hg hvalue hread st hst hnew := by
    obtain ⟨resource, hresource, hfits⟩ := hinv
    obtain rfl : resource = current := Option.some.inj (hresource.symm.trans hread)
    exact steps_commit hst (by simp) hread hnew (hvalue w.ghost hg hfits)

theorem meets_environmentUpdate (hG : ∀ {a b : WorkspaceHistory}, G a → a.Extends b → G b)
    (hplan : Plans storageKey p G plan) (attempts : ℕ) :
    (workspaceSetting storageKey).Meets p (fun w ↦ G w.ghost)
      (EnvironmentService.updateAttempts plan attempts) (fun _ _ ↦ True) fun _ _ ↦ True :=
  (hplan.safe hG).meets_environmentUpdate attempts

theorem yields_handoffUpdate (hplan : Plans storageKey p (fun _ ↦ True) plan) :
    (workspaceSetting storageKey).Yields p (WorkspaceHandoffService.update plan) fun _ ↦ True :=
  (hplan.safe fun _ _ ↦ trivial).meets_handoffUpdate 5

theorem yields_environmentUpdate (hplan : Plans storageKey p (fun _ ↦ True) plan) :
    (workspaceSetting storageKey).Yields p (EnvironmentService.update plan) fun _ ↦ True :=
  meets_environmentUpdate (G := fun _ ↦ True) (fun _ _ ↦ trivial) hplan 5

/-! ## The calls -/

namespace WorkspaceHandoffService

theorem yields_bind (execution : WorkspaceExecution) :
    (workspaceSetting storageKey).Yields p (bind execution) fun _ ↦ True :=
  yields_handoffUpdate (plans_orRefuse fun _ _ _ _ hfits h ↦ moves_planBind hfits h)

theorem yields_begin (source : WorkspaceExecution) (transitionId : String) :
    (workspaceSetting storageKey).Yields p (begin source transitionId) fun _ ↦ True :=
  yields_handoffUpdate (plans_clockNow fun _ ↦ plans_clockNow fun _ ↦
    plans_orRefuse fun _ _ _ _ hfits h ↦ moves_planHandoffBegin hfits h)

theorem yields_commit (checkpoint : WorkspaceCheckpoint) :
    (workspaceSetting storageKey).Yields p (commit checkpoint) fun _ ↦ True :=
  yields_handoffUpdate (plans_clockNow fun _ ↦
    plans_orRefuse fun _ _ _ _ hfits h ↦ moves_planCheckpointWrite hfits h)

theorem yields_adopt (checkpointId : String) (successor : WorkspaceExecution) (attemptId : String)
    (compatibility : WorkspaceCompatibility) :
    (workspaceSetting storageKey).Yields p
      (adopt checkpointId successor attemptId compatibility) fun _ ↦ True :=
  yields_handoffUpdate (plans_clockNow fun _ ↦
    plans_orRefuse fun _ _ _ _ hfits h ↦ moves_planCheckpointAdoption hfits h)

theorem yields_abort (source : WorkspaceExecution) (transitionId : String) :
    (workspaceSetting storageKey).Yields p (abort source transitionId) fun _ ↦ True :=
  yields_handoffUpdate (plans_orRefuse fun _ _ _ _ hfits h ↦ moves_planHandoffAbort hfits h)

theorem yields_releaseSnapshot (checkpointId leaseId : String) :
    (workspaceSetting storageKey).Yields p (releaseSnapshot checkpointId leaseId) fun _ ↦ True :=
  yields_handoffUpdate (plans_clockNow fun _ ↦
    plans_orRefuse fun _ _ _ _ hfits h ↦ moves_planSnapshotRelease hfits h)

theorem yields_leaseSnapshot (checkpointId : String) (durationSeconds : ℕ) :
    (workspaceSetting storageKey).Yields p
      (leaseSnapshot storageKey checkpointId durationSeconds) fun _ ↦ True := by
  unfold leaseSnapshot
  split
  · exact yields_raise
  · refine yields_randomUUID.bind fun id _ ↦ yields_clockNow.bind fun now _ ↦ ?_
    refine (yields_handoffUpdate ?_).bind fun _ _ ↦ yields_ret trivial
    exact plans_clockNow fun _ ↦ plans_orRefuse fun _ _ _ _ hfits h ↦
      moves_planSnapshotLease hfits h

/-- The copy is published in the same transaction that ends the lease. -/
theorem yields_publishSnapshot (checkpointId leaseId : String) (sizeBytes : ℕ) :
    (workspaceSetting storageKey).Yields p
      (publishSnapshot storageKey checkpointId leaseId sizeBytes) fun _ ↦ True := by
  unfold publishSnapshot
  split
  · exact yields_raise
  refine RecordSpec.meets_get stable_true fun _ _ _ ↦ ?_
  refine meets_requiredRecord (RecordSpec.since_permanent _).stable
    fun w₀ current _ _ hread ↦ ?_
  have hP : (workspaceSetting storageKey).Permanent (workspaceSpec.since w₀) :=
    RecordSpec.since_permanent w₀
  split
  · split
    · exact meets_raise fun _ _ _ ↦ trivial
    · exact meets_ret fun _ _ _ ↦ trivial
  refine yields_clockNow.seq hP fun now _ ↦ yields_orRefuse.seq hP fun released hreleased ↦ ?_
  split
  · exact meets_raise fun _ _ _ ↦ trivial
  refine yields_clockNow.seq hP fun createdAt _ ↦ ?_
  refine Meets.bind (M := fun _ _ ↦ True) ((meets_commitWrites (R := fun _ ↦ True) hP
    fun w st hinv hsince hst ↦ ?_).conseq (fun _ _ hp ↦ hp) (fun _ _ _ _ ↦ trivial)
      fun _ _ _ _ ↦ trivial) fun _ ↦ meets_ret fun _ _ _ ↦ trivial
  obtain ⟨resource, hresource, hfits⟩ := hinv
  have hfound : w.records .environment = some current :=
    Store.commit_of_seen hst List.mem_cons_self rfl (hread ▸ hsince.records .environment)
  obtain rfl : resource = current := Option.some.inj (hresource.symm.trans hfound)
  have hnew : st .environment = some ⟨resource.revision + 1, released⟩ := by
    obtain ⟨-, rfl⟩ := Store.commit_eq_some.mp hst
    rfl
  exact ⟨steps_commit hst (by simp) hresource hnew (moves_planSnapshotRelease hfits hreleased),
    trivial⟩

theorem yields_recover (source : WorkspaceExecution) :
    (workspaceSetting storageKey).Yields p (recover source) fun _ ↦ True := by
  refine meets_requiredRecord stable_true fun w₀ current _ _ hread ↦ ?_
  have hP : (workspaceSetting storageKey).Permanent (workspaceSpec.since w₀) :=
    RecordSpec.since_permanent w₀
  refine yields_clockNow.seq hP fun now _ ↦ ?_
  split
  · exact meets_raise fun _ _ _ ↦ trivial
  next handoff hhandoff =>
  split
  · exact meets_raise fun _ _ _ ↦ trivial
  next habandoned =>
  have hholder : handoff.holder = source := by
    simp only [Bool.or_eq_true, Bool.not_eq_true', not_or, Bool.not_eq_false] at habandoned
    exact eq_of_sameWorkspaceExecution habandoned.1.2
  refine Meets.bind (meets_requireStopped hP) fun _ ↦ ?_
  split
  · exact meets_raise fun _ _ _ ↦ trivial
  have hstopped : (workspaceSetting storageKey).Permanent
      fun w ↦ workspaceSpec.since w₀ w ∧ source ∈ w.ghost.stopped :=
    fun _ _ _ _ hs ht hg h ↦ ⟨hP hs ht hg h.1, hg.1.ghost.stopped h.2⟩
  refine (meets_putEnvironment hstopped (fun w hw ↦ hread ▸ hw.1.records .environment)
    fun w hw hfits ↦ ?_).conseq (fun _ _ hp ↦ hp) (fun _ _ _ _ ↦ trivial) fun _ _ _ _ ↦ trivial
  exact moves_recover hfits hhandoff (hholder ▸ hw.2)

theorem yields_releasePending (value : StoredEnvironment) (runId : String) :
    (workspaceSetting storageKey).Yields p (releasePending value runId) fun _ ↦ True := by
  unfold releasePending
  split
  · split
    · exact yields_ret trivial
    refine yields_runEnded.bind fun a _ ↦
      (yields_ofExcept (F := fun _ ↦ True) fun _ _ ↦ trivial).bind fun ended _ ↦ ?_
    split
    · exact yields_raise
    refine (yields_handoffUpdate fun old ↦ ?_).bind fun _ _ ↦ yields_ret trivial
    split
    · exact yields_raise
    · exact yields_ret fun history _ hfits ↦ hfits.steady rfl rfl rfl rfl rfl
  · exact yields_ret trivial

/-- A replacement is decided on once the execution it replaces has let go. -/
theorem meets_prepareReplacement (runId : String) :
    (workspaceSetting storageKey).Meets p (fun _ ↦ True) (prepareReplacement runId)
      (fun admission w ↦ w.ghost.Admissible runId admission) fun _ _ ↦ True := by
  refine meets_requiredRecord stable_true fun w₀ current hinv _ hread ↦ ?_
  obtain ⟨resource, hresource, hfits⟩ := hinv
  obtain rfl : resource = current := Option.some.inj (hresource.symm.trans hread)
  -- Without a hand-off the execution it replaces is asked for; its answer is kept.
  let Settled (w : WorkspaceWorld) : Prop := resource.value.handoff = none →
    w.ghost.Admissible runId ⟨resource.value.runId, resource.value.executionGeneration⟩
  have hsettled : (workspaceSetting storageKey).Permanent
      fun w ↦ workspaceSpec.since w₀ w ∧ Settled w :=
    fun _ _ _ _ _ _ hg h ↦ ⟨workspaceSpec.since_trans h.1 hg.1,
      fun hnone ↦ (h.2 hnone).mono hg.1.ghost⟩
  refine Meets.bind (M := fun _ w ↦ workspaceSpec.since w₀ w ∧ Settled w) ?_ fun _ ↦ ?_
  · unfold requirePreviousStopped
    split
    · next previous generation hnone hrun hgeneration =>
      split
      · refine (meets_requireStopped (RecordSpec.since_permanent w₀)).conseq (fun _ _ hp ↦ hp)
          (fun _ w _ hw ↦ ⟨hw.1, fun _ execution he he' _ ↦ .inl ?_⟩) fun _ _ _ _ ↦ trivial
        have hsame : execution = ⟨previous, generation⟩ := by
          rw [hrun, Option.some.injEq] at he
          rw [hgeneration, Option.some.injEq] at he'
          rw [he, he']
        exact hsame ▸ hw.2
      · next hskip =>
        refine meets_ret fun w _ hsince ↦ ⟨hsince, fun _ execution he _ hne ↦ absurd ?_ hne⟩
        have hprevious : previous ≠ "" := fun h ↦ hfits.runId (h ▸ hrun)
        have hpresent : generation ≠ "" := fun h ↦ hfits.generation (h ▸ hgeneration)
        rw [hrun, Option.some.injEq] at he
        simpa [hprevious, hpresent, ← he] using hskip
    · next hother =>
      exact meets_ret fun w _ hsince ↦ ⟨hsince, fun hnone execution he he' _ ↦
        (hother execution.runId execution.generation hnone he he').elim⟩
  refine (yields_releasePending resource.value runId).seq hsettled fun _ _ ↦ ?_
  split
  · next hnone => exact meets_ret fun w _ hw ↦ hw.2 hnone
  · next handoff hhandoff =>
    split
    · next hkept =>
      refine meets_ret fun w _ hw execution he he' hne ↦ ?_
      rcases Bool.or_eq_true _ _ ▸ hkept with hsame | hcommitted
      · rw [decide_eq_true_eq] at hsame
        exact absurd (Option.some.inj (he.symm.trans hsame)) hne
      · exact (hfits.released hcommitted (bound_eq_some.mpr ⟨he, he'⟩)).mono hw.1.ghost
    · refine (yields_recover handoff.holder).seq hsettled fun _ _ ↦ ?_
      exact meets_ret fun w _ _ execution _ hgeneration ↦ (nomatch hgeneration)

theorem yields_prepareWorker (successor : WorkspaceExecution)
    (setupDigest policyDigest authorityDigest : String) :
    (workspaceSetting storageKey).Yields p
      (prepareWorker successor setupDigest policyDigest authorityDigest) fun _ ↦ True := by
  refine meets_requiredRecord stable_true fun w₀ current _ _ _ ↦ ?_
  have hP : (workspaceSetting storageKey).Permanent (workspaceSpec.since w₀) :=
    RecordSpec.since_permanent w₀
  split
  · split
    · exact meets_raise fun _ _ _ ↦ trivial
    · refine yields_randomUUID.seq hP fun attemptId _ ↦ (yields_adopt _ _ _ _).seq hP fun _ _ ↦ ?_
      exact meets_ret fun _ _ _ ↦ trivial
  · refine (yields_bind successor).seq hP fun _ _ ↦ ?_
    exact meets_ret fun _ _ _ ↦ trivial

end WorkspaceHandoffService

namespace EnvironmentService

theorem yields_attachManaged (runId : RunId) :
    (workspaceSetting storageKey).Yields p (attachManaged runId.value) fun _ ↦ True := by
  refine Meets.bind (WorkspaceHandoffService.meets_prepareReplacement runId.value)
    fun admission ↦ ?_
  have hG : ∀ {a b : WorkspaceHistory}, a.Admissible runId.value admission → a.Extends b →
      b.Admissible runId.value admission := fun h hext ↦ h.mono hext
  have hP : (workspaceSetting storageKey).Permanent
      fun w ↦ w.ghost.Admissible runId.value admission := ghost_permanent hG
  refine meets_requiredRecord hP.stable fun w₀ _ _ hadmissible _ ↦ ?_
  refine Yields.seq (RecordSpec.since_permanent w₀) yields_piRecoveryAllowed fun a _ ↦ ?_
  refine Yields.seq (F := fun _ ↦ True) (RecordSpec.since_permanent w₀)
    (yields_ofExcept fun _ _ ↦ trivial) fun pi _ ↦ ?_
  refine (meets_environmentUpdate hG ?_ 5).pre fun w _ hsince ↦ hadmissible.mono hsince.ghost
  exact plans_clockNow fun now ↦ plans_orRefuse fun history old value hadmissible hfits h ↦
    moves_planAttach hfits runId.nonempty hadmissible h

theorem yields_orFail {r : Except String StoredEnvironment} :
    (workspaceSetting storageKey).Yields p (orFail r) fun value ↦ r = .ok value := by
  refine yields_ofExcept fun value hr ↦ ?_
  cases r with
  | ok value' =>
    cases hr
    rfl
  | error message => cases hr

theorem yields_managedReady (runId : String) (sandbox : ManagedSandboxGeneration)
    (piWorkspace : Option WorkspaceCompatibility) :
    (workspaceSetting storageKey).Yields p (managedReady runId sandbox piWorkspace)
      fun _ ↦ True := by
  unfold managedReady
  split
  · exact yields_raise
  · refine yields_environmentUpdate (plans_clockNow fun now old ↦ ?_)
    refine yields_orFail.bind fun ready hready ↦ yields_ret fun history _ hfits ↦ ?_
    exact moves_planManagedReadiness hfits hready

theorem yields_managedStatus (runId : String) (status : EnvironmentStatus) :
    (workspaceSetting storageKey).Yields p (managedStatus runId status) fun _ ↦ True := by
  refine yields_environmentUpdate (plans_clockNow fun now old ↦ ?_)
  exact yields_orFail.mono fun value hplan history _ hfits ↦ moves_planManagedStatus hfits hplan

theorem yields_retire : (workspaceSetting storageKey).Yields p retire fun _ ↦ True := by
  refine meets_requiredRecord stable_true fun w₀ current _ _ _ ↦ ?_
  split
  · exact meets_ret fun _ _ _ ↦ trivial
  · refine (yields_environmentUpdate ?_).pre fun _ _ _ ↦ trivial
    exact plans_clockNow fun _ ↦ plans_orRefuse fun _ _ _ _ hfits h ↦ moves_planRetire hfits h

end EnvironmentService

/-- Every call keeps to the specification. -/
theorem yields_workspaceBody (p : ℕ × WorkspaceCall) :
    (workspaceSetting storageKey).Yields p (workspaceBody storageKey p.2) fun _ ↦ True := by
  obtain ⟨pid, call⟩ := p
  have hdiscard : ∀ {α : Type} {m : WorkspaceProg α} {F : α → Prop},
      (workspaceSetting storageKey).Yields (pid, call) m F →
        (workspaceSetting storageKey).Yields (pid, call) (discard m) fun _ ↦ True :=
    fun h ↦ h.bind fun _ _ ↦ yields_ret trivial
  cases call with
  | bind execution => exact hdiscard (WorkspaceHandoffService.yields_bind execution)
  | begin source transitionId => exact hdiscard (WorkspaceHandoffService.yields_begin _ _)
  | commit checkpoint => exact hdiscard (WorkspaceHandoffService.yields_commit checkpoint)
  | adopt checkpointId successor attemptId compatibility =>
    exact hdiscard (WorkspaceHandoffService.yields_adopt _ _ _ _)
  | abort source transitionId => exact hdiscard (WorkspaceHandoffService.yields_abort _ _)
  | recover source => exact WorkspaceHandoffService.yields_recover source
  | prepareReplacement runId =>
    refine Meets.bind (WorkspaceHandoffService.meets_prepareReplacement runId.value) fun _ ↦ ?_
    exact meets_ret fun _ _ _ ↦ trivial
  | prepareWorker successor setupDigest policyDigest authorityDigest =>
    exact hdiscard (WorkspaceHandoffService.yields_prepareWorker _ _ _ _)
  | leaseSnapshot checkpointId durationSeconds =>
    exact hdiscard (WorkspaceHandoffService.yields_leaseSnapshot _ _)
  | publishSnapshot checkpointId leaseId sizeBytes =>
    exact hdiscard (WorkspaceHandoffService.yields_publishSnapshot _ _ _)
  | releaseSnapshot checkpointId leaseId =>
    exact hdiscard (WorkspaceHandoffService.yields_releaseSnapshot _ _)
  | attachManaged runId => exact EnvironmentService.yields_attachManaged runId
  | managedReady runId sandbox piWorkspace =>
    exact EnvironmentService.yields_managedReady runId sandbox piWorkspace
  | managedStatus runId status => exact EnvironmentService.yields_managedStatus runId status
  | retire => exact EnvironmentService.yields_retire

end

/-! ## Every run -/

/-- An environment for which nothing has been handed over yet. -/
structure WorkspaceWorld.Opening (w : WorkspaceWorld) : Prop where
  ghost : w.ghost = ⟨[], [], []⟩
  environment : ∃ resource, w.records .environment = some resource ∧
    resource.value.handoff = none ∧ resource.value.runId ≠ some "" ∧
      resource.value.executionGeneration ≠ some ""

theorem WorkspaceWorld.Opening.consistent {w : WorkspaceWorld} (h : w.Opening) : w.Consistent := by
  obtain ⟨resource, hread, hhandoff, hrun, hgeneration⟩ := h.environment
  refine ⟨resource, hread, hrun, hgeneration, fun handoff hh ↦ ?_, fun checkpoint hc ↦ ?_,
    fun adoption ha ↦ ?_, fun a ha ↦ ?_⟩
  · rw [hhandoff] at hh
    cases hh
  · simp [StoredEnvironment.committed?, hhandoff] at hc
  · simp [h.ghost] at ha
  · simp [h.ghost] at ha

section

variable {storageKey : String → String → String → String} {start : WorkspaceWorld}

theorem workspaceService_verified (storageKey : String → String → String → String)
    (hstart : start.Opening) :
    (workspaceSetting storageKey).Verified start (fun _ _ _ ↦ True) fun _ _ _ ↦ True where
  init := hstart.consistent
  body p := (yields_workspaceBody p).pre fun _ _ _ ↦ trivial
  post_stable _ _ := stable_true
  fail_stable _ _ := stable_true

/-- The execution that may write to the workspace. -/
def WorkspaceWorld.bound (w : WorkspaceWorld) : Option WorkspaceExecution :=
  (w.records .environment).bind (·.value.bound)

abbrev WorkspaceConfig : Type :=
  Config WorkspaceWorld (RecordEffect WorkspaceKey WorkspaceValue WorkspaceAsk)
    (RecordEffect.Answer WorkspaceAsk.Answer) ServiceFailure Unit WorkspaceCall

/-- What single writing means for a configuration. -/
structure OneWriter (storageKey : String → String → String → String) (c : WorkspaceConfig) :
    Prop where
  /-- A writer is replaced only once it has let go: it had committed a checkpoint, or had been
  found to have stopped. -/
  replaced : ∀ ev c' execution, (workspaceService storageKey).step c ev = some c' →
    WorkspaceWorld.bound c.state = some execution →
      WorkspaceWorld.bound c'.state = some execution ∨ c.state.ghost.Released execution
  /-- The checkpoint in the record is one that the bound execution committed. -/
  committed : ∀ resource checkpoint, c.state.records .environment = some resource →
    resource.value.committed? = some checkpoint →
      checkpoint ∈ c.state.ghost.commits ∧ resource.value.bound = some checkpoint.source
  /-- What was adopted had been committed. -/
  adopted : ∀ a ∈ c.state.ghost.adoptions,
    c.state.ghost.commits[a.commit - 1]? = some a.checkpoint
  /-- No two adoptions are of the same commit. -/
  once : ∀ a ∈ c.state.ghost.adoptions, ∀ b ∈ c.state.ghost.adoptions,
    a.commit = b.commit → a = b

theorem WorkspaceWorld.HandsOver.bound {w w' : WorkspaceWorld} (h : w.HandsOver w')
    (hconsistent : w'.Consistent) {execution : WorkspaceExecution}
    (hbound : WorkspaceWorld.bound w = some execution) :
    WorkspaceWorld.bound w' = some execution ∨ w.ghost.Released execution := by
  obtain ⟨old, hold, hb⟩ := Option.bind_eq_some_iff.mp hbound
  obtain ⟨new, hnew, -⟩ := hconsistent
  rcases h old new hold hnew execution hb with hkept | hreleased
  · exact .inl (Option.bind_eq_some_iff.mpr ⟨new, hnew, hkept⟩)
  · exact .inr hreleased

theorem workspace_has_one_writer (hstart : start.Opening) {c : WorkspaceConfig}
    (hc : Reachable (workspaceService storageKey) .free start c) : OneWriter storageKey c := by
  have hV := workspaceService_verified storageKey hstart
  have hsound := hV.reachable hc
  obtain ⟨resource, hread, hfits⟩ := hsound.inv
  refine ⟨fun ev c' execution hstep hbound ↦ ?_, fun resource' checkpoint hread' hcommitted ↦ ?_,
    fun a ha ↦ (hfits.adopted a ha).2, hfits.once⟩
  · cases ev with
    | start pid call =>
      obtain ⟨-, hstate, -⟩ := step_start_eq_some hstep
      exact .inl (hstate ▸ hbound)
    | resume pid x =>
      obtain ⟨call, e, k, answer, hproc, -, -⟩ := step_resume_eq_some hstep
      obtain ⟨hsound', -, hallowed⟩ := hV.resume hsound hproc (permits_free c _) hstep
      exact hallowed.bound hsound'.inv hbound
  · obtain rfl : resource = resource' := Option.some.inj (hread.symm.trans hread')
    exact ⟨List.mem_of_getLast? (hfits.committed checkpoint hcommitted).1,
      hfits.bound_of_committed hcommitted⟩

end

/-! ## A run -/

def sampleEnvironment : StoredEnvironment where
  type := .openaiHosted
  sessionId := "session"
  runId := some "run 1"
  executionGeneration := none
  pendingRunId := none
  handoff := none
  sandboxId := some "sandbox"
  piWorkspace := none
  resetCount := none
  status := .pending
  connectedUntil := none
  retired := false

def sampleWorkspace : WorkspaceWorld :=
  ⟨fun
    | .environment => some ⟨1, sampleEnvironment⟩
    | .forkSnapshot _ => none, ⟨[], [], []⟩⟩

theorem sampleWorkspace_opening : sampleWorkspace.Opening :=
  ⟨rfl, ⟨1, sampleEnvironment⟩, rfl, rfl, by decide, by decide⟩

/-- One run is bound, found to have stopped, and replaced by another. -/
def sampleReplacement : List (Event WorkspaceCall (RecordChoice WorkspaceChoice)) :=
  [.start 0 (.bind ⟨"run 1", "g 1"⟩), .resume 0 ⟨{}, .acknowledged⟩,
    .resume 0 ⟨{}, .acknowledged⟩,
    .start 1 (.attachManaged ⟨"run 2", by decide⟩)] ++
    List.replicate 6 (.resume 1 ⟨{}, .acknowledged⟩)

def sampleStorageKey (sessionId checkpointId leaseId : String) : String :=
  sessionId ++ "/" ++ checkpointId ++ "/" ++ leaseId

/-- The next step of that run replaces the first execution, which had let go by then. -/
theorem sampleReplacement_released :
    ∃ c c', (workspaceService sampleStorageKey).run .free sampleReplacement
        (.initial sampleWorkspace) = some c ∧
      (workspaceService sampleStorageKey).step c (.resume 1 ⟨{}, .acknowledged⟩) = some c' ∧
      WorkspaceWorld.bound c'.state = none ∧ c.state.ghost.Released ⟨"run 1", "g 1"⟩ := by
  have hrun : (((workspaceService sampleStorageKey).run .free sampleReplacement
      (.initial sampleWorkspace)).map fun c ↦
        (WorkspaceWorld.bound c.state, ((workspaceService sampleStorageKey).step c
          (.resume 1 ⟨{}, .acknowledged⟩)).map fun c' ↦ WorkspaceWorld.bound c'.state)) =
      some (some ⟨"run 1", "g 1"⟩, some none) := by decide
  obtain ⟨c, hc, hfields⟩ := Option.map_eq_some_iff.mp hrun
  obtain ⟨hbound, hnext⟩ := Prod.mk.inj hfields
  obtain ⟨c', hstep, hbound'⟩ := Option.map_eq_some_iff.mp hnext
  have hwriter := workspace_has_one_writer sampleWorkspace_opening (Service.leads_of_run hc)
  rcases hwriter.replaced _ c' _ hstep hbound with hkept | hreleased
  · rw [hbound'] at hkept
    cases hkept
  · exact ⟨c, c', hc, hstep, hbound', hreleased⟩

end RatThings
