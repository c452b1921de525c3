import RatThings.Runs.Participants

/-!
# The lifecycle of a Run

A Run is queued, dispatched, run and finished, or cancelled on the way. Deliveries, workers,
keep-alives, cancellations and reconciler passes all write its record, any number of each at a time,
and their commands may be sent again when an answer is lost. This module proves that the record is a
one-way state machine with one execution nevertheless.

## Lawful commands

Every participant is verified against one fact about the commands it issues: they are *lawful*.
A lawful command follows the lifecycle, claims only a queued Run, attaches only with a generation,
and starts, keeps alive or finishes only an execution with a real id. What a lawful command does to
a record is then one lemma, `RunWrite.Lawful.effect`, and the statements about runs follow from it
alone.

So a participant relies on nothing that it read: what it knows of a record may be outdated, and the
condition of its command is what counts. That the condition is the right one for the command is what
is proved of each participant.
-/

namespace RatThings

open Concurrent Prog RunStore

/-! ## Lawful commands

The edges are those of the store's table. A terminal write names the statuses that it expects, and
each of them has to have the edge. -/

/-- The statuses the options expect can all move to the status they set. -/
def Terminalization.Lawful (options : Terminalization) : Prop :=
  ∀ source ∈ options.expectedStatuses, canTransition source options.status

/-- What the participants promise about a command they issue. -/
def RunWrite.Lawful : RunWrite → Prop
  | .update values expectedStatuses _ =>
    (∃ target, values.status = some target ∧
      ∀ source ∈ expectedStatuses, canTransition source target) ∧
    ∀ e, values.execution = some e → expectedStatuses = [.queued] ∧ e.fence.isSome
  | .attachExecution execution generation _ => execution.fence = some generation
  | .startExecution execution _ => execution.isPending = false
  | .heartbeatExecution execution _ => execution.isPending = false
  | .failExecution options _ => options.Lawful
  | .cancelExecution options _ => options.Lawful
  | .finishExecution options _ => options.Lawful ∧ options.execution.isPending = false
  | .recordLivenessInspection .. => True

/-- What every stored record satisfies: a queued Run has no execution, and an execution is never
without a generation. -/
structure RunRecord.Valid (run : RunRecord) : Prop where
  queued : run.status = .queued → run.execution = none
  fenced : ∀ e, run.execution = some e → e.fence.isSome

/-- What one command may do to a record. -/
structure RunRecord.Advances (run run' : RunRecord) : Prop where
  status : run'.status = run.status ∨ canTransition run.status run'.status
  attached : ∀ x, run.attached = some x → run'.attached = some x

theorem canTransition_ne_queued {source target : RunStatus} (h : canTransition source target) :
    target ≠ .queued := by
  rintro rfl
  cases source <;> simp [canTransition, transitions] at h

theorem canTransition_of_terminal {source target : RunStatus} (h : isTerminal source) :
    canTransition source target = false := by
  cases source <;> simp_all [canTransition, transitions, isTerminal]

theorem attached_of_executionIs {run : RunRecord} {statuses : List RunStatus}
    {execution : ExecutionReference} (h : run.executionIs statuses execution)
    (hp : execution.isPending = false) : run.attached = some execution.identity := by
  simp only [RunRecord.executionIs, Bool.and_eq_true, Option.any_eq_true, beq_iff_eq] at h
  obtain ⟨-, stored, hs, hi⟩ := h
  have hid : stored.id = execution.id := congrArg ExecutionIdentity.id hi
  have hpend : stored.isPending = false := by
    rw [ExecutionReference.isPending, hid]
    exact hp
  simp [RunRecord.attached, hs, hpend, hi]

/-- An exact-execution command that leaves the execution as it is and follows the lifecycle. -/
theorem advances_of_execution_eq {run run' : RunRecord} (hv : run.Valid)
    (he : run'.execution = run.execution)
    (hs : run'.status = run.status ∨ canTransition run.status run'.status) :
    run'.Valid ∧ run.Advances run' := by
  refine ⟨⟨fun hq ↦ ?_, fun e h ↦ hv.fenced e (he ▸ h)⟩, hs, fun x hx ↦ ?_⟩
  · rcases hs with hs | hs
    · rw [he]
      exact hv.queued (hs ▸ hq)
    · exact absurd hq (canTransition_ne_queued hs)
  · rwa [RunRecord.attached, he]

theorem Terminalization.Lawful.effect {options : Terminalization} (hw : options.Lawful)
    {settledAt : Instant} {run run' : RunRecord} (hv : run.Valid)
    (h : options.apply settledAt run = some run') : run'.Valid ∧ run.Advances run' := by
  unfold Terminalization.apply at h
  split at h
  · next hc =>
    cases h
    simp only [RunRecord.executionIs, Bool.and_eq_true, List.contains_iff_mem] at hc
    exact advances_of_execution_eq hv rfl (.inr (hw _ hc.1.1))
  · cases h

/-- **What a lawful command does.** It keeps the record valid, moves it along an edge or leaves its
status, and never changes an attached execution. -/
theorem RunWrite.Lawful.effect {command : RunWrite} (hw : command.Lawful) {run run' : RunRecord}
    (hv : run.Valid) (h : command.apply run = some run') : run'.Valid ∧ run.Advances run' := by
  cases command with
  | update values expectedStatuses updatedAt =>
    obtain ⟨⟨target, ht, hedge⟩, hexec⟩ := hw
    simp only [RunWrite.apply, Option.ite_none_right_eq_some, Option.some.injEq,
      List.contains_iff_mem] at h
    obtain ⟨hmem, rfl⟩ := h
    have hstatus : canTransition run.status (run.patched values updatedAt).status := by
      simpa [RunRecord.patched, ht] using hedge _ hmem
    cases he : values.execution with
    | none =>
      exact advances_of_execution_eq hv (by simp [RunRecord.patched, he]) (.inr hstatus)
    | some e =>
      obtain ⟨rfl, hf⟩ := hexec e he
      have hnone : run.execution = none := hv.queued (by simpa using hmem)
      refine ⟨⟨fun hq ↦ absurd hq (canTransition_ne_queued hstatus), fun e' he' ↦ ?_⟩,
        .inr hstatus, fun x hx ↦ ?_⟩
      · have heq : e = e' := by simpa [RunRecord.patched, he] using he'
        exact heq ▸ hf
      · simp [RunRecord.attached, hnone] at hx
  | attachExecution execution generation now =>
    simp only [RunWrite.apply, Option.ite_none_right_eq_some, Option.some.injEq,
      RunRecord.attachable, Bool.and_eq_true, List.contains_iff_mem] at h
    obtain ⟨⟨hmem, hall⟩, rfl⟩ := h
    refine ⟨⟨fun hq ↦ ?_, fun e he ↦ ?_⟩, .inl rfl, fun x hx ↦ ?_⟩
    · rw [show run.status = .queued from hq] at hmem
      simp at hmem
    · cases he
      rw [show execution.fence = some generation from hw]
      rfl
    · -- What the condition finds is pending, so nothing was attached.
      cases he : run.execution with
      | none => simp [RunRecord.attached, he] at hx
      | some e => simp_all [RunRecord.attached]
  | startExecution execution startedAt =>
    simp only [RunWrite.apply, Option.ite_none_right_eq_some, Option.some.injEq] at h
    obtain ⟨hc, rfl⟩ := h
    have hatt := attached_of_executionIs hc hw
    simp only [RunRecord.executionIs, Bool.and_eq_true, List.contains_iff_mem,
      List.mem_singleton, Option.any_eq_true, beq_iff_eq] at hc
    obtain ⟨hs, stored, hst, hi⟩ := hc
    refine ⟨⟨(fun hq ↦ nomatch hq), fun e he ↦ ?_⟩, .inr (by rw [hs]; rfl), fun x hx ↦ ?_⟩
    · cases he
      have hgen : stored.generation = execution.generation :=
        congrArg ExecutionIdentity.generation hi
      simpa [ExecutionReference.fence, hgen] using hv.fenced stored hst
    · rw [hatt] at hx
      cases hx
      have hp : ExecutionReference.isPending { execution with startedAt := some startedAt } =
          false :=
        hw
      simp [RunRecord.attached, hp, ExecutionReference.identity]
  | heartbeatExecution execution heartbeatAt =>
    simp only [RunWrite.apply, Option.ite_none_right_eq_some, Option.some.injEq] at h
    obtain ⟨-, rfl⟩ := h
    exact advances_of_execution_eq hv rfl (.inl rfl)
  | failExecution options settledAt => exact Terminalization.Lawful.effect hw hv h
  | cancelExecution options settledAt => exact Terminalization.Lawful.effect hw hv h
  | finishExecution options settledAt => exact Terminalization.Lawful.effect hw.1 hv h
  | recordLivenessInspection execution expectedHeartbeatAt observation =>
    simp only [RunWrite.apply, Option.ite_none_right_eq_some, Option.some.injEq] at h
    obtain ⟨-, rfl⟩ := h
    exact advances_of_execution_eq hv rfl (.inl rfl)

/-! ## The service -/

inductive RunCall : Type
  | dispatch (traceId : String)
  | worker (environment : WorkerEnvironment) (polls : ℕ)
  /-- A keep-alive is given the attached execution its worker started. -/
  | keepAlive (execution : { e : ExecutionReference // e.isPending = false })
  | cancel (ownerId : String)
  | reconcile (run : RunRecord)
  | reconcileCancellation (run : RunRecord)

namespace RunDispatcherOptions

variable (options : RunDispatcherOptions)

def body : RunCall → RunProg Unit
  | .dispatch traceId => RatThings.dispatch options traceId
  | .worker environment polls => runAgentWorker environment polls
  | .keepAlive execution => RatThings.keepAlive execution
  | .cancel ownerId => do
    let _ ← RatThings.cancel ownerId
    pure ()
  | .reconcile run => do
    let _ ← RatThings.reconcile run
    pure ()
  | .reconcileCancellation run => RatThings.reconcileCancellation run

/-- All participants of one Run, on its record. -/
def service : Service RunRecord RunEffect RunEffect.Answer RunFailure Unit RunCall RunChoice :=
  ⟨options.body, handleRun⟩

/-- The guarantee of every participant: only a lawful command, and only as its condition allows. -/
def guarantee (_ : ℕ × RunCall) : RunEffect → RunRecord → RunRecord → Prop
  | .write command, run, run' => command.Lawful ∧ (run' = run ∨ command.apply run = some run')
  | _, run, run' => run' = run

def setting : Setting RunRecord RunEffect RunEffect.Answer RunFailure Unit RunCall RunChoice where
  service := options.service
  discipline := .free
  inv := RunRecord.Valid
  guar := guarantee

variable {options} {p : ℕ × RunCall} {α : Type} {F : α → Prop}

/-! ## The store's methods

Each method issues one kind of command, and most of them issue it again after a lost answer. -/

/-- A request other than an update command changes nothing. -/
theorem yields_request {e : RunEffect} (h : e.isWrite = false) :
    options.setting.Yields p (perform e : RunProg _) fun _ ↦ True := by
  refine Setting.yields_perform fun run x a run' hv _ _ ha ↦ ?_
  cases e with
  | write command => cases h
  | _ =>
    cases ha
    exact ⟨hv, rfl, trivial⟩

theorem yields_get :
    options.setting.Yields p RunStore.get fun run ↦ ∀ r, run = some r → r.Valid := by
  refine Setting.Yields.bind (F := fun a ↦ ∀ r, a = .ok (some r) → r.Valid)
    (Setting.yields_perform fun run x a run' hv _ _ ha ↦ ?_) fun a ha ↦ ?_
  · cases ha
    refine ⟨hv, rfl, fun r hr ↦ ?_⟩
    unfold RunChoice.attempt at hr
    split at hr
    · cases hr
      exact hv
    · cases hr
  · exact Setting.yields_ofExcept fun run hr r hrun ↦ ha r (hr.trans (congrArg _ hrun))

/-- A lawful command is safe; what it reports as written is what it wrote. -/
theorem yields_write {command : RunWrite} (hw : command.Lawful) :
    options.setting.Yields p (perform (RunEffect.write command) : RunProg _) fun reply ↦
      ∀ r, reply = .updated r → ∃ run, run.Valid ∧ command.apply run = some r := by
  refine Setting.yields_perform fun run x reply run' hv _ _ ha ↦ ?_
  have hcases := RunChoice.answerWrite_cases (Option.some.inj ha)
  obtain ⟨rfl, hno⟩ | ⟨happ, hr⟩ := hcases
  · exact ⟨hv, ⟨hw, .inl rfl⟩, fun r h ↦ absurd h (hno r)⟩
  · exact ⟨(hw.effect hv happ).1, ⟨hw, .inr happ⟩, fun r h ↦ ⟨run, hv, (hr r h) ▸ happ⟩⟩

/-- A plain update is lawful whatever the time it carries. -/
theorem yields_update {runId : String} {values : RunPatch} {expected : List RunStatus}
    (hw : ∀ now, (RunWrite.update values expected now).Lawful) :
    options.setting.Yields p (update runId values expected) fun _ ↦ True := by
  refine Setting.Yields.bind (yields_request rfl) fun now _ ↦
    Setting.Yields.bind (yields_write (hw now)) fun reply _ ↦ ?_
  cases reply with
  | updated run => exact Setting.yields_ret trivial
  | failed message => exact Setting.yields_raise
  | conditionFailed =>
    refine yields_get.bind fun run _ ↦ ?_
    cases run <;> exact Setting.yields_raise

theorem yields_transition {runId : String} {source : List RunStatus} {target : RunStatus}
    {patch : RunPatch} (hedge : ∀ s ∈ source, canTransition s target)
    (hexec : ∀ e, patch.execution = some e → source = [.queued] ∧ e.fence.isSome) :
    options.setting.Yields p (transition runId source target patch) fun _ ↦ True :=
  yields_update fun _ ↦ ⟨⟨target, rfl, hedge⟩, hexec⟩

theorem yields_fail {runId : String} {error : RunError} {source : List RunStatus}
    (hedge : ∀ s ∈ source, canTransition s .failed) :
    options.setting.Yields p (RunStore.fail runId error source) fun _ ↦ True :=
  yields_update fun _ ↦ ⟨⟨.failed, rfl, hedge⟩, fun _ h ↦ nomatch h⟩

/-- An execution with a generation is attached under the fence; the dispatcher has no other. -/
theorem yields_attachExecution {runId : String} {execution : ExecutionReference}
    (hf : execution.fence.isSome) :
    options.setting.Yields p (attachExecution runId execution) fun _ ↦ True := by
  obtain ⟨generation, hg⟩ := Option.isSome_iff_exists.mp hf
  unfold attachExecution
  rw [hg]
  refine Setting.Yields.bind (yields_request rfl) fun now _ ↦
    Setting.Yields.bind (yields_write hg) fun reply _ ↦ ?_
  cases reply with
  | updated run => exact Setting.yields_ret trivial
  | failed message => exact Setting.yields_raise
  | conditionFailed =>
    refine yields_get.bind fun run _ ↦ ?_
    cases run with
    | none => exact Setting.yields_raise
    | some current =>
      dsimp only
      split
      · exact Setting.yields_ret trivial
      · exact Setting.yields_raise

theorem yields_updateExactExecution {execution : ExecutionReference} {command : RunWrite}
    (hw : command.Lawful) :
    options.setting.Yields p (updateExactExecution execution command) fun run ↦
      ∀ r, run = some r → ∃ run, run.Valid ∧ command.apply run = some r := by
  unfold updateExactExecution
  split
  · exact Setting.yields_ret fun r hr ↦ by cases hr
  · refine Setting.Yields.bind (yields_write hw) fun reply hreply ↦ ?_
    cases reply with
    | updated run =>
      refine Setting.yields_ret fun r hr ↦ hreply r ?_
      rw [Option.some.inj hr]
    | conditionFailed => exact Setting.yields_ret fun r hr ↦ by cases hr
    | failed message => exact Setting.yields_raise

/-- What a worker holds after its start is the execution it named. -/
theorem yields_startExecution {execution : ExecutionReference} {startedAt : Instant}
    (hp : execution.isPending = false) :
    options.setting.Yields p (startExecution execution startedAt) fun run ↦
      ∀ e, run.execution = some e → e.isPending = false := by
  have hw : (RunWrite.startExecution execution startedAt).Lawful := hp
  refine (yields_updateExactExecution hw).bind fun run hrun ↦ ?_
  cases run with
  | none => exact Setting.yields_raise
  | some run =>
    refine Setting.yields_ret fun e he ↦ ?_
    obtain ⟨before, -, happ⟩ := hrun run rfl
    simp only [RunWrite.apply, Option.ite_none_right_eq_some, Option.some.injEq] at happ
    obtain ⟨-, rfl⟩ := happ
    cases he
    exact hp

theorem yields_terminalizeExactExecution {o : Terminalization}
    {command : Terminalization → Instant → RunWrite} (hw : ∀ now, (command o now).Lawful) :
    options.setting.Yields p (terminalizeExactExecution o command) fun _ ↦ True := by
  unfold terminalizeExactExecution
  split
  · exact Setting.yields_ret trivial
  · suffices h : ∀ n, options.setting.Yields p (terminalizeAttempts o command n) fun _ ↦ True
      from h 10
    intro n
    induction n with
    | zero => exact Setting.yields_ret trivial
    | succ n ih =>
      refine yields_get.bind fun run _ ↦ ?_
      cases run with
      | none => exact Setting.yields_ret trivial
      | some run =>
        dsimp only
        split
        · refine Setting.Yields.bind (yields_request rfl) fun now _ ↦
            Setting.Yields.bind (yields_write (hw now)) fun reply _ ↦ ?_
          cases reply with
          | updated run => exact Setting.yields_ret trivial
          | conditionFailed => exact ih
          | failed message => exact Setting.yields_raise
        · exact Setting.yields_ret trivial

theorem yields_failExecution {execution : ExecutionReference} {heartbeatAt : Instant}
    {error : RunError} :
    options.setting.Yields p (failExecution execution heartbeatAt error) fun _ ↦ True :=
  yields_terminalizeExactExecution fun _ ↦ by
    simp [RunWrite.Lawful, Terminalization.Lawful, canTransition, transitions]

theorem yields_cancelExecution {execution : ExecutionReference} :
    options.setting.Yields p (cancelExecution execution) fun _ ↦ True :=
  yields_terminalizeExactExecution fun _ ↦ by
    simp [RunWrite.Lawful, Terminalization.Lawful, canTransition, transitions]

theorem yields_finishExecution {execution : ExecutionReference} {finish : Finish}
    {result : RunResult} {error : Option RunError} (hp : execution.isPending = false) :
    options.setting.Yields p (finishExecution execution finish result error) fun _ ↦ True := by
  refine yields_terminalizeExactExecution fun _ ↦ ⟨?_, hp⟩
  cases finish <;> simp [Terminalization.Lawful, Finish.status, canTransition, transitions]

/-! ## The participants

The programs are followed to their commands. Only the reconciler works on a record that it was
given, and it reads the Run again before it writes. -/

/-- A transition that carries no execution. -/
theorem yields_move {runId : String} {source : List RunStatus} {target : RunStatus}
    {requestedAt : Option Instant} (hedge : ∀ s ∈ source, canTransition s target) :
    options.setting.Yields p
      (transition runId source target { cancelRequestedAt := requestedAt }) fun _ ↦ True :=
  yields_transition hedge fun _ h ↦ by cases h

theorem yields_stop {id reason : String} :
    options.setting.Yields p
      (do Prog.ofExcept (← perform (RunEffect.stopExecutor id reason)) : RunProg Unit)
      fun _ ↦ True :=
  Setting.Yields.bind (yields_request rfl) fun _ _ ↦ Setting.yields_ofExcept fun _ _ ↦ trivial

theorem yields_claimQueued {run : RunRecord} {backend : ExecutionBackend} {generation : String}
    (hg : generation ≠ "") :
    options.setting.Yields p (claimQueued run backend generation) fun _ ↦ True := by
  refine Setting.Yields.catching (.bind (yields_transition (by decide) fun e he ↦ ?_)
    fun _ _ ↦ Setting.yields_ret trivial) fun error ↦ ?_
  · cases he
    exact ⟨rfl, by simp [ExecutionReference.fence, hg]⟩
  · cases error with
    | error message => exact Setting.yields_raise
    | invalidStateTransition source target =>
      refine yields_get.bind fun latest _ ↦ ?_
      cases latest with
      | none => exact Setting.yields_raise
      | some latest =>
        dsimp only
        split
        · exact Setting.yields_ret trivial
        · exact Setting.yields_raise

theorem yields_claim {run : RunRecord} {backend : ExecutionBackend} {generation : String}
    (hg : generation ≠ "") :
    options.setting.Yields p (claim run backend generation) fun _ ↦ True := by
  unfold claim
  split
  · exact yields_claimQueued hg
  · exact Setting.yields_ret trivial

theorem yields_attachOrStop {run : RunRecord} {execution : ExecutionReference}
    (hf : execution.fence.isSome) :
    options.setting.Yields p (attachOrStop run execution) fun _ ↦ True := by
  refine Setting.Yields.catching (.bind (yields_attachExecution hf)
    fun _ _ ↦ Setting.yields_ret trivial) fun error ↦ yields_stop.bind fun _ _ ↦ ?_
  cases error with
  | error message => exact Setting.yields_raise
  | invalidStateTransition source target =>
    refine yields_get.bind fun latest _ ↦ ?_
    cases latest with
    | none => exact Setting.yields_raise
    | some latest =>
      dsimp only
      split
      · exact .bind (yields_move (by decide)) fun _ _ ↦ Setting.yields_ret trivial
      · exact Setting.yields_raise

/-- The generation a delivery works with is never empty: it is the stored one or a hash. -/
theorem generation_ne_empty_of_valid (options : RunDispatcherOptions) {run : RunRecord}
    (hv : run.Valid) :
    (run.execution.bind (·.generation)).getD
      (options.executionGeneration run.runId run.requestHash) ≠ "" := by
  cases he : run.execution with
  | none => exact options.generation_ne_empty _ _
  | some e =>
    have hf := hv.fenced e he
    cases hg : e.generation with
    | none => simp [ExecutionReference.fence, hg] at hf
    | some generation => simpa [ExecutionReference.fence, hg] using hf

theorem yields_dispatch {traceId : String} :
    options.setting.Yields p (RatThings.dispatch options traceId) fun _ ↦ True := by
  refine yields_get.bind fun run hrun ↦ ?_
  cases hadm : dispatchAdmission run with
  | ignore => exact Setting.yields_ret trivial
  | dispatch current =>
    have hv : current.Valid := by
      cases run with
      | none => cases hadm
      | some run =>
        simp only [dispatchAdmission] at hadm
        split at hadm
        · cases hadm
        · cases hadm
          exact hrun _ rfl
    have hg := generation_ne_empty_of_valid options hv
    refine Setting.Yields.bind (yields_request rfl) fun requested _ ↦
      Setting.Yields.bind (Setting.yields_ofExcept fun _ _ ↦ trivial) fun backend _ ↦ ?_
    refine Setting.Yields.bind (yields_claim hg) fun claimed _ ↦ ?_
    cases claimed with
    | none => exact Setting.yields_ret trivial
    | some dispatching =>
      refine Setting.Yields.bind (yields_request rfl) fun started _ ↦ ?_
      cases started with
      | error error =>
        dsimp only
        cases executorStartFailure error with
        | retry => exact Setting.yields_raise
        | fail failure =>
          exact .bind (yields_fail (by decide)) fun _ _ ↦ Setting.yields_ret trivial
      | ok execution =>
        dsimp only
        split
        · exact yields_stop.bind fun _ _ ↦
            .bind (yields_fail (by decide)) fun _ _ ↦ Setting.yields_ret trivial
        · next hsame =>
          refine yields_attachOrStop ?_
          rw [ExecutionReference.fence, not_not.mp hsame]
          simpa [Option.filter] using hg

theorem yields_waitForExecutionAttachment {runId : String} {polls : ℕ} :
    options.setting.Yields p (waitForExecutionAttachment runId polls) fun _ ↦ True := by
  induction polls with
  | zero => exact Setting.yields_raise
  | succ polls ih =>
    refine yields_get.bind fun run _ ↦ ?_
    cases run with
    | none => exact Setting.yields_raise
    | some current =>
      dsimp only
      split
      · exact Setting.yields_ret trivial
      · exact ih

theorem yields_driveExecution {execution : ExecutionReference}
    (hp : execution.isPending = false) :
    options.setting.Yields p (driveExecution execution) fun _ ↦ True := by
  refine Setting.Yields.bind (yields_request rfl) fun _ _ ↦
    Setting.Yields.bind (Setting.yields_ofExcept fun _ _ ↦ trivial) fun _ _ ↦
    Setting.Yields.bind (yields_request rfl) fun driven _ ↦
    Setting.Yields.bind (yields_request rfl) fun interrupted _ ↦
    yields_get.bind fun finalizing _ ↦
    Setting.Yields.bind (yields_request rfl) fun _ _ ↦
    Setting.Yields.bind (Setting.yields_ofExcept fun _ _ ↦ trivial) fun _ _ ↦
    Setting.Yields.bind (yields_finishExecution hp) fun finalized _ ↦ ?_
  split
  · exact Setting.yields_ret trivial
  · exact Setting.yields_raise

theorem yields_holding {current : RunRecord} {m : RunProg α} (h : options.setting.Yields p m F) :
    options.setting.Yields p (holding current m) F :=
  h.catching fun _ ↦ Setting.yields_raise

theorem yields_workerAttempt {worker : WorkerEnvironment} {polls : ℕ} {startedAt : Instant}
    {initial : RunRecord} :
    options.setting.Yields p (workerAttempt worker polls startedAt initial) fun _ ↦ True := by
  unfold workerAttempt
  split
  · exact Setting.yields_raise
  · refine Setting.Yields.bind (yields_holding (Setting.Yields.bind (yields_request rfl) fun _ _ ↦
      Setting.yields_ofExcept fun _ _ ↦ trivial)) fun _ _ ↦
      Setting.Yields.bind (yields_holding yields_waitForExecutionAttachment) fun current _ ↦ ?_
    split
    · exact yields_holding (.bind (yields_move (by decide)) fun _ _ ↦ Setting.yields_ret trivial)
    split
    · exact Setting.yields_ret trivial
    cases current.execution with
    | none => exact Setting.yields_raise
    | some execution =>
      dsimp only
      split
      · exact Setting.yields_raise
      next hp =>
      split
      · exact Setting.yields_raise
      refine Setting.Yields.bind (yields_holding (yields_startExecution (by simpa using hp)))
        fun started hstarted ↦ ?_
      -- From here on the worker uses the execution its start returned.
      cases hs : started.execution with
      | none => exact Setting.yields_raise
      | some attached => exact yields_holding (yields_driveExecution (hstarted attached hs))

theorem yields_workerFailed {runId : String} {startedAt : Instant}
    {failure : RunFailure × RunRecord} :
    options.setting.Yields p (workerFailed runId startedAt failure) fun _ ↦ True := by
  obtain ⟨error, current⟩ := failure
  refine yields_get.bind fun latest _ ↦ ?_
  split
  · refine Setting.Yields.catching ?_ fun e ↦ ?_
    · split
      · exact .bind yields_cancelExecution fun _ _ ↦ Setting.yields_ret trivial
      · exact Setting.yields_raise
      · exact .bind (yields_move (by decide)) fun _ _ ↦ Setting.yields_ret trivial
    · cases e with
      | invalidStateTransition source target => exact Setting.yields_ret trivial
      | error message => exact Setting.yields_raise
  · refine Setting.Yields.bind (yields_request rfl) fun interrupted _ ↦ ?_
    dsimp only
    split
    · exact .bind yields_failExecution fun _ _ ↦ Setting.yields_raise
    · split
      · exact .bind (yields_fail (by decide)) fun _ _ ↦ Setting.yields_raise
      · exact Setting.yields_raise

theorem yields_runAgentWorker {worker : WorkerEnvironment} {polls : ℕ} :
    options.setting.Yields p (runAgentWorker worker polls) fun _ ↦ True := by
  refine yields_get.bind fun run _ ↦ ?_
  cases run with
  | none => exact Setting.yields_raise
  | some current =>
    dsimp only
    split
    · exact Setting.yields_ret trivial
    · exact Setting.Yields.bind (yields_request rfl) fun startedAt _ ↦
        yields_workerAttempt.catching fun _ ↦ yields_workerFailed

theorem yields_keepAlive {execution : ExecutionReference} (hp : execution.isPending = false) :
    options.setting.Yields p (RatThings.keepAlive execution) fun _ ↦ True := by
  refine Setting.Yields.bind (yields_request rfl) fun heartbeatAt _ ↦ ?_
  have hw : (RunWrite.heartbeatExecution execution heartbeatAt).Lawful := hp
  have hbeat : options.setting.Yields p (heartbeatExecution execution heartbeatAt)
      fun _ ↦ True := (yields_updateExactExecution hw).bind fun _ _ ↦ Setting.yields_ret trivial
  exact hbeat.bind fun _ _ ↦ Setting.yields_ret trivial

theorem yields_beginCancelling {current : RunRecord} :
    options.setting.Yields p (beginCancelling current) fun _ ↦ True := by
  unfold beginCancelling
  split
  · exact Setting.yields_ret trivial
  · exact Setting.Yields.bind (yields_request rfl) fun _ _ ↦ yields_move (by decide)

theorem yields_cancel {ownerId : String} :
    options.setting.Yields p (RatThings.cancel ownerId) fun _ ↦ True := by
  refine yields_get.bind fun run _ ↦ ?_
  cases run with
  | none => exact Setting.yields_raise
  | some current =>
    dsimp only
    split
    · exact Setting.yields_ret trivial
    split
    · exact Setting.Yields.bind (yields_request rfl) fun _ _ ↦ yields_move (by decide)
    · refine yields_beginCancelling.bind fun cancelling _ ↦ ?_
      split
      · exact yields_stop.bind fun _ _ ↦ Setting.yields_ret trivial
      · exact Setting.yields_ret trivial

theorem yields_reconcile {run : RunRecord} :
    options.setting.Yields p (RatThings.reconcile run) fun _ ↦ True := by
  unfold RatThings.reconcile
  cases reconciliationTarget run with
  | skip outcome => exact Setting.yields_ret trivial
  | inspect execution heartbeatAt =>
    refine Setting.Yields.bind (yields_request rfl) fun inspected _ ↦
      Setting.Yields.bind (Setting.yields_ofExcept fun _ _ ↦ trivial) fun inspection _ ↦
      Setting.Yields.bind (yields_request rfl) fun checkedAt _ ↦ ?_
    cases reconciliationDecision run inspection
      (executionHeartbeatAge heartbeatAt inspection checkedAt) with
    | observe outcome consecutiveUncertain reason =>
      have hw : (RunWrite.recordLivenessInspection execution heartbeatAt
        (livenessObservation outcome consecutiveUncertain reason checkedAt)).Lawful := trivial
      have hrecord : options.setting.Yields p (recordLivenessInspection execution heartbeatAt
          (livenessObservation outcome consecutiveUncertain reason checkedAt)) fun _ ↦ True :=
        (yields_updateExactExecution hw).bind fun _ _ ↦ Setting.yields_ret trivial
      refine hrecord.bind fun retained _ ↦ ?_
      repeat' split
      all_goals exact Setting.yields_ret trivial
    | cancel => exact yields_cancelExecution.bind fun _ _ ↦ Setting.yields_ret trivial
    | stop reason => exact yields_stop.bind fun _ _ ↦ Setting.yields_ret trivial
    | expire error =>
      refine yields_failExecution.bind fun failed _ ↦ ?_
      split
      · exact Setting.yields_ret trivial
      · exact yields_stop.bind fun _ _ ↦ Setting.yields_ret trivial
    | fail error => exact yields_failExecution.bind fun _ _ ↦ Setting.yields_ret trivial

theorem yields_reconcileCancellation {run : RunRecord} :
    options.setting.Yields p (RatThings.reconcileCancellation run) fun _ ↦ True := by
  unfold RatThings.reconcileCancellation
  split
  · exact .bind (yields_move (by decide)) fun _ _ ↦ Setting.yields_ret trivial
  · exact yields_reconcile.bind fun _ _ ↦ Setting.yields_ret trivial

theorem verified {initial : RunRecord} (hv : initial.Valid) :
    options.setting.Verified initial (fun _ _ _ ↦ True) fun _ _ _ ↦ True where
  init := hv
  body p s hs _ := by
    suffices h : options.setting.Yields p (options.body p.2) fun _ ↦ True from h s hs trivial
    obtain ⟨pid, call⟩ := p
    cases call with
    | dispatch traceId => exact yields_dispatch
    | worker environment polls => exact yields_runAgentWorker
    | keepAlive execution => exact yields_keepAlive execution.2
    | cancel ownerId => exact yields_cancel.bind fun _ _ ↦ Setting.yields_ret trivial
    | reconcile run => exact yields_reconcile.bind fun _ _ ↦ Setting.yields_ret trivial
    | reconcileCancellation run => exact yields_reconcileCancellation
  post_stable _ _ := Setting.stable_true
  fail_stable _ _ := Setting.stable_true

end RunDispatcherOptions

/-! ## Runs

The step lemma is the guarantee of the participants, and the run lemma its closure: an execution
that is attached stays, and a Run that has ended does not change its status. -/

/-- A Run as its creation stores it. -/
structure RunRecord.Created (run : RunRecord) : Prop where
  queued : run.status = .queued
  unclaimed : run.execution = none

theorem RunRecord.Created.valid {run : RunRecord} (h : run.Created) : run.Valid :=
  ⟨fun _ ↦ h.unclaimed, fun e he ↦ by rw [h.unclaimed] at he; cases he⟩

theorem RunRecord.Advances.refl (run : RunRecord) : run.Advances run := ⟨.inl rfl, fun _ h ↦ h⟩

/-- What a later record of the same Run has in common with an earlier one. -/
structure RunRecord.Leads (run run' : RunRecord) : Prop where
  terminal : isTerminal run.status → run'.status = run.status
  attached : ∀ x, run.attached = some x → run'.attached = some x

theorem RunRecord.Advances.leads {run run' : RunRecord} (h : run.Advances run') :
    run.Leads run' := by
  refine ⟨fun ht ↦ ?_, h.attached⟩
  rcases h.status with hs | hs
  · exact hs
  · rw [canTransition_of_terminal ht] at hs
    cases hs

theorem RunRecord.Leads.trans {a b c : RunRecord} (h : a.Leads b) (h' : b.Leads c) :
    a.Leads c := by
  refine ⟨fun ht ↦ ?_, fun x hx ↦ h'.attached x (h.attached x hx)⟩
  have hab := h.terminal ht
  rw [h'.terminal (hab ▸ ht), hab]

theorem advances_of_guarantee (p : ℕ × RunCall) {e : RunEffect} {run run' : RunRecord}
    (hv : run.Valid)
    (h : RunDispatcherOptions.guarantee p e run run') : run.Advances run' := by
  cases e with
  | write command =>
    obtain ⟨hw, rfl | happ⟩ := h
    · exact .refl _
    · exact (hw.effect hv happ).2
  | _ => exact h ▸ .refl _

/-- The execution a start, a keep-alive or a finish is issued for. -/
def RunWrite.issuedFor : RunWrite → Option ExecutionReference
  | .startExecution execution _ => some execution
  | .heartbeatExecution execution _ => some execution
  | .finishExecution options _ => some options.execution
  | _ => none

/-- A lawful start, keep-alive or finish takes effect only for the attached execution. -/
theorem RunWrite.Lawful.attached_of_apply {command : RunWrite} (hw : command.Lawful)
    {execution : ExecutionReference} (he : command.issuedFor = some execution)
    {run run' : RunRecord} (h : command.apply run = some run') :
    run.attached = some execution.identity := by
  cases command with
  | startExecution e startedAt =>
    cases he
    simp only [RunWrite.apply, Option.ite_none_right_eq_some] at h
    exact attached_of_executionIs h.1 hw
  | heartbeatExecution e heartbeatAt =>
    cases he
    simp only [RunWrite.apply, Option.ite_none_right_eq_some] at h
    exact attached_of_executionIs h.1 hw
  | finishExecution options settledAt =>
    cases he
    simp only [RunWrite.apply, Terminalization.apply, Option.ite_none_right_eq_some,
      Bool.and_eq_true] at h
    exact attached_of_executionIs h.1.1 hw.2
  | _ => cases he

/-- **A Run is a one-way state machine with one execution.** In every run of any number of
dispatcher deliveries, workers, keep-alives, cancellations and reconciler passes, from a Run as it
was created: each step follows an edge of the lifecycle or leaves the status; a terminal status is
final; an attached execution is never replaced; and a start, a keep-alive or a finish takes effect
only when it is issued for exactly the attached execution. -/
theorem run_lifecycle (options : RunDispatcherOptions) {initial : RunRecord}
    (hinit : initial.Created)
    {c : Config RunRecord RunEffect RunEffect.Answer RunFailure Unit RunCall}
    (hc : Service.Reachable options.service .free initial c) :
    (∀ ev c', options.service.step c ev = some c' →
      c'.state.status = c.state.status ∨ canTransition c.state.status c'.state.status) ∧
    (∀ c', Service.Leads options.service .free c c' →
      isTerminal c.state.status → c'.state.status = c.state.status) ∧
    (∀ c' x, Service.Leads options.service .free c c' →
      c.state.attached = some x → c'.state.attached = some x) ∧
    (∀ pid x call command k c' execution,
      c.procs pid = some (call, .call (.write command) k) →
      options.service.step c (.resume pid x) = some c' →
      command.issuedFor = some execution →
      (command.apply c.state).isSome ∨ c'.state ≠ c.state →
      c.state.attached = some execution.identity) := by
  have hV : options.setting.Verified initial _ _ := RunDispatcherOptions.verified hinit.valid
  have hsound := hV.reachable hc
  -- What lasts between any two states follows from what each call guarantees in between.
  have hfuture : ∀ c', Service.Leads options.service .free c c' → c.state.Leads c'.state :=
    fun c' h ↦ hV.future RunRecord.Leads (fun r ↦ (RunRecord.Advances.refl r).leads) .trans
      (fun {p _ _ _ _ _} hs _ _ _ hg ↦ (advances_of_guarantee p hs hg).leads) hsound h
  refine ⟨fun ev c' hstep ↦ ?_, fun c' h ↦ (hfuture c' h).terminal,
    fun c' x h ↦ (hfuture c' h).attached x,
    fun pid x call command k c' execution hproc hstep he heffect ↦ ?_⟩
  · obtain ⟨-, hsame | ⟨p, e, hg⟩⟩ := hV.step hsound (Service.permits_free c ev) hstep
    · exact .inl (congrArg _ hsame)
    · exact (advances_of_guarantee p hsound.inv hg).status
  · obtain ⟨-, hw, hg⟩ := hV.resume hsound hproc (Service.permits_free c _) hstep
    -- A command that does not apply leaves the record as it is, so either way it has applied.
    rcases heffect with hsome | hne
    · obtain ⟨run', happ⟩ := Option.isSome_iff_exists.mp hsome
      exact hw.attached_of_apply he happ
    · rcases hg with hsame | happ
      · exact absurd hsame hne
      · exact hw.attached_of_apply he happ

/-! ## A run

A delivery claims the Run, starts a microVM and attaches it; the worker then starts. -/

def sampleOptions : RunDispatcherOptions :=
  ⟨.microvm, fun runId requestHash ↦ "generation:" ++ runId ++ requestHash,
    fun _ _ h ↦ by simpa using congrArg String.length h⟩

def sampleRun : RunRecord :=
  { runId := "run", requestHash := "hash", retired := false, agentsSession := true,
    status := .queued, updatedAt := 0, expiresAt := 0, execution := none, heartbeatAt := none,
    liveness := none, result := none, error := none, cancelRequestedAt := none }

def sampleEvents : List (Event RunCall RunChoice) :=
  let execution := ⟨.microvm, "vm", some "generation:runhash", none⟩
  [.start 0 (.dispatch "trace"), .resume 0 {}, .resume 0 {}, .resume 0 {}, .resume 0 {},
    .resume 0 { start := .ok execution }, .resume 0 { clock := 5 }, .resume 0 {},
    .start 1 (.worker ⟨.microvm, "vm", "generation:runhash"⟩ 1), .resume 1 {}, .resume 1 {},
    .resume 1 {}, .resume 1 {}, .resume 1 { clock := 7 }]

/-- After these steps the Run belongs to that microVM for ever. -/
theorem sampleRun_keeps_execution :
    ∃ c, sampleOptions.service.run .free sampleEvents (.initial sampleRun) = some c ∧
      c.state.status = .running ∧ ∀ c', Service.Leads sampleOptions.service .free c c' →
        c'.state.attached = some ⟨.microvm, "vm", some "generation:runhash"⟩ := by
  have hrun : (sampleOptions.service.run .free sampleEvents (.initial sampleRun)).map
      (fun c ↦ (c.state.status, c.state.attached)) =
      some (.running, some ⟨.microvm, "vm", some "generation:runhash"⟩) := by decide
  obtain ⟨c, hc, hfields⟩ := Option.map_eq_some_iff.mp hrun
  obtain ⟨hstatus, hattached⟩ := Prod.mk.inj hfields
  exact ⟨c, hc, hstatus, fun c' h ↦ (run_lifecycle sampleOptions ⟨rfl, rfl⟩
    (Service.leads_of_run hc)).2.2.1 c' _ h hattached⟩

end RatThings
