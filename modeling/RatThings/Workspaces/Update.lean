import RatThings.Workspaces.Service

/-!
# Changing the environment record

Both services change the record in a loop: they read it, plan, and write what they planned unless
the record has changed meanwhile. What a plan may do to the record is the same thing in every
round, so the loops are verified here once, whatever is to be known about plans and histories.
-/

namespace RatThings

open Concurrent Service Setting

section

variable {Ghost χ : Type} {spec : RecordSpec WorkspaceKey WorkspaceValue Ghost WorkspaceCall}
  {surroundings : Surroundings WorkspaceKey WorkspaceValue WorkspaceAsk WorkspaceAsk.Answer Ghost χ}
  {body : WorkspaceCall → WorkspaceProg Unit}
  {D : Discipline (RecordWorld WorkspaceKey WorkspaceValue Ghost)
    (RecordEffect WorkspaceKey WorkspaceValue WorkspaceAsk) WorkspaceCall (RecordChoice χ)}
  {p : ℕ × WorkspaceCall} {P G : RecordWorld WorkspaceKey WorkspaceValue Ghost → Prop}
  {R : StoredEnvironment → StoredEnvironment → RecordWorld WorkspaceKey WorkspaceValue Ghost → Prop}
  {plan : StoredEnvironment → WorkspaceProg StoredEnvironment}

/-- A change of the record from `current` to `value` that keeps to the specification. -/
def Replaces (spec : RecordSpec WorkspaceKey WorkspaceValue Ghost WorkspaceCall)
    (surroundings : Surroundings WorkspaceKey WorkspaceValue WorkspaceAsk WorkspaceAsk.Answer
      Ghost χ) (p : ℕ × WorkspaceCall) (current : Versioned StoredEnvironment)
    (value : StoredEnvironment) (w : RecordWorld WorkspaceKey WorkspaceValue Ghost) : Prop :=
  w.records .environment = some current →
    ∀ st, w.records.commit [⟨WorkspaceKey.environment, current.revision, some value⟩] = some st →
      st .environment = some ⟨current.revision + 1, value⟩ →
        spec.Steps p w ⟨st, surroundings.observe p.1 w.records st w.ghost⟩

/-- The record that was read is replaced. -/
theorem meets_putCurrent {current : Versioned StoredEnvironment} {value : StoredEnvironment}
    (hP : (spec.setting surroundings body D).Permanent P)
    (hread : ∀ w, P w → Slot.Precedes (some current) (w.records .environment))
    (hstep : ∀ w, spec.inv w → P w → Replaces spec surroundings p current value w) :
    (spec.setting surroundings body D).Meets p P (putEnvironment current value) (fun _ _ ↦ True)
      fun _ ↦ P := by
  refine (meets_commitWrites (R := fun _ ↦ True) hP fun w st hinv hp hst ↦ ?_).conseq
    (fun _ _ hp ↦ hp) (fun _ _ _ _ ↦ trivial) fun _ _ _ hp ↦ hp
  have hfound : w.records .environment = some current :=
    Store.commit_of_seen hst (List.mem_singleton.mpr rfl) rfl (hread w hp)
  refine ⟨hstep w hinv hp hfound st hst ?_, trivial⟩
  obtain ⟨-, rfl⟩ := Store.commit_singleton.mp hst
  exact Store.apply_self w.records ⟨WorkspaceKey.environment, current.revision, some value⟩

/-- What an update rests on: every plan decides something that is safe to write, and stays so. -/
structure SafePlan (spec : RecordSpec WorkspaceKey WorkspaceValue Ghost WorkspaceCall)
    (surroundings : Surroundings WorkspaceKey WorkspaceValue WorkspaceAsk WorkspaceAsk.Answer
      Ghost χ) (body : WorkspaceCall → WorkspaceProg Unit)
    (D : Discipline (RecordWorld WorkspaceKey WorkspaceValue Ghost)
      (RecordEffect WorkspaceKey WorkspaceValue WorkspaceAsk) WorkspaceCall (RecordChoice χ))
    (p : ℕ × WorkspaceCall) (G : RecordWorld WorkspaceKey WorkspaceValue Ghost → Prop)
    (R : StoredEnvironment → StoredEnvironment →
      RecordWorld WorkspaceKey WorkspaceValue Ghost → Prop)
    (plan : StoredEnvironment → WorkspaceProg StoredEnvironment) : Prop where
  assumed : ∀ w w', spec.since w w' → G w → G w'
  decided : ∀ old value w w', spec.since w w' → R old value w → R old value w'
  since : ∀ w w', spec.since w w' →
    Slot.Precedes (w.records .environment) (w'.records .environment)
  plans : ∀ old, (spec.setting surroundings body D).Meets p G (plan old)
    (fun value ↦ R old value) fun _ _ ↦ True
  replaces : ∀ w current value, spec.inv w → G w → R current.value value w →
    Replaces spec surroundings p current value w

variable (h : SafePlan spec surroundings body D p G R plan)
  {w₀ : RecordWorld WorkspaceKey WorkspaceValue Ghost} {current : Versioned StoredEnvironment}

include h

/-- What was planned from the record that was read. -/
theorem SafePlan.meets_plan (hg : G w₀) (old : StoredEnvironment) :
    (spec.setting surroundings body D).Meets p (spec.since w₀) (plan old)
      (fun value w ↦ spec.since w₀ w ∧ R old value w) fun _ _ ↦ True :=
  ((h.plans old).frame (RecordSpec.since_permanent w₀)).conseq
    (fun w _ hsince ↦ ⟨hsince, h.assumed w₀ w hsince hg⟩) (fun _ _ _ hq ↦ hq)
    fun _ _ _ _ ↦ trivial

/-- What was planned is written. -/
theorem SafePlan.meets_put (hg : G w₀) (hread : w₀.records .environment = some current)
    (value : StoredEnvironment) :
    (spec.setting surroundings body D).Meets p
      (fun w ↦ spec.since w₀ w ∧ R current.value value w) (putEnvironment current value)
      (fun _ _ ↦ True) fun _ ↦ spec.since w₀ := by
  refine (meets_putCurrent (fun _ _ w w' _ _ hguar hp ↦ ?_) (fun w hp ↦ ?_)
    fun w hinv hp ↦ ?_).conseq (fun _ _ hp ↦ hp) (fun _ _ _ hq ↦ hq) fun _ _ _ hp ↦ hp.1
  · exact ⟨spec.since_trans hp.1 hguar.1, h.decided _ _ w w' hguar.1 hp.2⟩
  · exact hread ▸ h.since w₀ w hp.1
  · exact h.replaces w current value hinv (h.assumed w₀ w hp.1 hg) hp.2

theorem SafePlan.meets_handoffUpdate (attempts : ℕ) :
    (spec.setting surroundings body D).Meets p G
      (WorkspaceHandoffService.updateAttempts plan attempts) (fun _ _ ↦ True) fun _ _ ↦ True := by
  induction attempts with
  | zero => exact meets_raise fun _ _ _ ↦ trivial
  | succ attempts ih =>
    refine meets_requiredRecord (fun _ _ w w' _ _ _ hguar ↦ h.assumed w w' hguar.1)
      fun w₀ current _ hg hread ↦ ?_
    refine Meets.bind (h.meets_plan hg current.value) fun value ↦ ?_
    split
    · exact meets_ret fun _ _ _ ↦ trivial
    · refine Meets.catching (U := fun _ ↦ spec.since w₀) ?_ fun error ↦ ?_
      · exact Meets.bind (h.meets_put hg hread value) fun _ ↦ meets_ret fun _ _ _ ↦ trivial
      · split
        · exact ih.pre fun w _ hsince ↦ h.assumed w₀ w hsince hg
        · exact meets_raise fun _ _ _ ↦ trivial

theorem SafePlan.meets_environmentUpdate (attempts : ℕ) :
    (spec.setting surroundings body D).Meets p G
      (EnvironmentService.updateAttempts plan attempts) (fun _ _ ↦ True) fun _ _ ↦ True := by
  induction attempts with
  | zero => exact meets_ret fun _ _ _ ↦ trivial
  | succ attempts ih =>
    refine meets_requiredRecord (fun _ _ w w' _ _ _ hguar ↦ h.assumed w w' hguar.1)
      fun w₀ current _ hg hread ↦ ?_
    refine Meets.bind (h.meets_plan hg current.value) fun value ↦ ?_
    refine Meets.catching (U := fun _ ↦ spec.since w₀) (h.meets_put hg hread value)
      fun error ↦ ?_
    split
    · exact ih.pre fun w _ hsince ↦ h.assumed w₀ w hsince hg
    · exact meets_raise fun _ _ _ ↦ trivial

end

end RatThings
