import RatThings.Library.Digest
import RatThings.Tools.Attempts

/-!
# No tool credential leaks or dies early

The credentials of a Session's tools are created before the Session is bound to them, in a vault
that takes part in no transaction. Callers prepare, stop in the midst of it, come back, close and
clean up, and any of their requests may take effect without an answer. This module proves that
every secret is bound, waits for an attempt that can still be cleaned up, or was revoked, and that
no secret is revoked while the Session is bound to it.

## What a caller knows

A caller knows the state it saw last, and that what it saw came before what is there now. That is
enough: the transaction that adopts an attempt names the revision of the pending attempt, so it
takes effect only if nobody has begun to clean it up, and a caller that cleans up has fenced the
adoption before it reads what the Session is bound to.

## Clean-up

A clean-up may be interrupted like any other call, so secrets of an attempt may stay for a while.
They are never lost sight of: the attempt stays recorded until they are all revoked, and a clean-up
that runs on its own to its end revokes them.
-/

namespace RatThings

open Concurrent Service Setting

namespace ToolWorld

def spec (reference : CredentialScope → String → String) :
    RecordSpec ToolKey ToolValue SecretHistory SessionToolService.Call where
  inv w := ToolWorld.Consistent reference w
  since w w' := ToolWorld.Since w w'
  allowed _ _ _ := True
  since_refl := Since.refl
  since_trans := Since.trans
  allowed_refl _ _ := trivial

end ToolWorld

namespace SessionToolService

variable (options : SessionToolOptions)

abbrev secretsSetting := (ToolWorld.spec options.reference).setting toolSurroundings
    (body options) .free

variable {options} {p : ℕ × Call} {P : ToolWorld → Prop} {α β : Type} {id : String}

/-! ## Questions -/

theorem permanent_since (w₀ : ToolWorld) : (secretsSetting options).Permanent fun w ↦ w₀.Since w :=
  RecordSpec.since_permanent w₀

theorem permanent_of_since (h : ∀ w w' : ToolWorld, w.Since w' → P w → P w') :
    (secretsSetting options).Permanent P :=
  fun _ _ w w' _ _ hguar hp ↦ h w w' hguar.1 hp

theorem yields_ask {q : ToolAsk}
    (h : ∀ x a g g', toolAnswer p.1 q x g = some (a, g') → g' = g) :
    (secretsSetting options).Yields p (ask q) fun _ ↦ True :=
  (RecordSpec.yields_ask h).mono fun _ _ ↦ trivial

theorem yields_now : (secretsSetting options).Yields p (ask .now) fun _ ↦ True :=
  yields_ask fun _ _ _ _ h ↦ by cases h; rfl

theorem yields_randomUUID : (secretsSetting options).Yields p (ask .randomUUID) fun _ ↦ True :=
  yields_ask fun _ _ _ _ h ↦ by cases h; rfl

theorem yields_attempt {m : ToolProg (Except ServiceFailure α)}
    (h : (secretsSetting options).Yields p m fun _ ↦ True) :
    (secretsSetting options).Yields p (attempt m) fun _ ↦ True :=
  Yields.bind h fun _ _ ↦ yields_ofExcept fun _ _ ↦ trivial

/-- Reading a record: from then on the state came after the one that was read. -/
theorem meets_read {k : ToolKey} {f : Option (Versioned k.Payload) → ToolProg β}
    {Q : β → ToolWorld → Prop} (hP : (secretsSetting options).Permanent P)
    (h : ∀ w₀ : ToolWorld, ToolWorld.Consistent options.reference w₀ → P w₀ →
      (secretsSetting options).Meets p (fun w ↦ w₀.Since w) (f (liveRecord (w₀.records k))) Q
        fun _ _ ↦ True) :
    (secretsSetting options).Meets p P (read k >>= f) Q fun _ _ ↦ True := by
  have hreach : (secretsSetting options).Yields p (attempt (ask .reach)) fun _ ↦ True :=
    yields_attempt (yields_ask fun _ _ _ _ h ↦ by cases h; rfl)
  refine Meets.bind (M := fun slot w ↦ ∃ w₀ : ToolWorld, ToolWorld.Consistent options.reference w₀ ∧
    P w₀ ∧ slot = liveRecord (w₀.records k) ∧ w₀.Since w) ?_ fun slot w hinv hread ↦ ?_
  · refine hreach.seq hP fun _ _ ↦ RecordSpec.meets_get hP.stable fun w₀ hinv hp ↦ ?_
    exact meets_ret fun w _ hsince ↦ ⟨w₀, hinv, hp, rfl, hsince⟩
  · obtain ⟨w₀, hinv₀, hp, rfl, hsince⟩ := hread
    exact h w₀ hinv₀ hp w hinv hsince

theorem yields_read {k : ToolKey} :
    (secretsSetting options).Yields p (read k) fun _ ↦ True := by
  have hreach : (secretsSetting options).Yields p (attempt (ask .reach)) fun _ ↦ True :=
    yields_attempt (yields_ask fun _ _ _ _ h ↦ by cases h; rfl)
  exact hreach.andThen fun _ _ ↦ RecordSpec.meets_get stable_true fun w₀ _ _ ↦
    meets_ret fun _ _ _ ↦ trivial

/-! ## Cleaning up

First the status of the attempt is written, then its secrets are revoked, then it is removed. Each
step can be repeated by anybody. -/

/-- A transaction that updates one attempt. -/
theorem meets_update (id : String) (new : Versioned (Kept SessionToolAttempt))
    {ws : List (Write ToolKey ToolValue)} (hreference : Function.Injective2 options.reference)
    (hP : (secretsSetting options).Permanent P)
    (h : ∀ (w : ToolWorld) st, ToolWorld.Consistent options.reference w → P w →
      w.records.commit ws = some st → w.Update options.reference id new ⟨st, w.ghost⟩) :
    (secretsSetting options).Meets p P (commitWrites ws)
      (fun _ w ↦ P w ∧ ToolWorld.attempt? w id = some new) fun _ _ ↦ True := by
  refine (meets_commitWrites hP fun w st hinv hp hst ↦ ?_).conseq (fun _ _ hp ↦ hp)
    (fun _ _ _ hq ↦ hq) fun _ _ _ _ ↦ trivial
  have hu : ToolWorld.Update options.reference id new w ⟨st, w.ghost⟩ := h w st hinv hp hst
  exact ⟨⟨hu.consistent hreference hinv, hu.since, trivial⟩, hu.written⟩

/-- An acknowledged revocation has taken effect. -/
theorem meets_revoke {references : List String} {r : String}
    (hP : (secretsSetting options).Permanent P)
    (hcleaning : ∀ w, P w → ToolWorld.Cleaning w id references) (hr : r ∈ references) :
    (secretsSetting options).Meets p P (attempt (ask (.revokeSecret r)))
      (fun _ w ↦ P w ∧ r ∈ w.ghost.revoked) fun _ _ ↦ True := by
  refine Meets.bind (M := fun a w ↦ P w ∧ (a = .ok () → r ∈ w.ghost.revoked)) ?_ fun a ↦ ?_
  · refine RecordSpec.meets_ask hP fun w x a g hinv hp _ ha ↦ ?_
    obtain ⟨hinv', hsince⟩ := ToolWorld.consistent_of_revoke hinv (hcleaning w hp) hr
    simp only [toolSurroundings, toolAnswer] at ha
    split at ha
    · cases ha
      exact ⟨⟨hinv', hsince, trivial⟩, fun _ ↦ List.mem_append_right _ (List.mem_singleton_self r)⟩
    · split at ha
      · cases ha
      · next hfault =>
        cases ha
        refine ⟨RecordSpec.steps_refl hinv, fun hok ↦ ?_⟩
        cases hcase : x.answer.fault with
        | none => exact absurd hcase hfault
        | some failure =>
          rw [ToolChoice.attempt, hcase] at hok
          cases hok
  · cases a with
    | ok a => exact meets_ret fun w _ hw ↦ ⟨hw.1, hw.2 rfl⟩
    | error e => exact meets_raise fun _ _ _ ↦ trivial

theorem meets_revokeAll {references : List String} (l : List String) (hl : ∀ r ∈ l, r ∈ references)
    (hP : (secretsSetting options).Permanent P)
    (hcleaning : ∀ w, P w → ToolWorld.Cleaning w id references) :
    (secretsSetting options).Meets p P (revokeAll l)
      (fun _ w ↦ P w ∧ ∀ r ∈ l, r ∈ w.ghost.revoked) fun _ _ ↦ True := by
  induction l generalizing P with
  | nil => exact meets_ret fun w _ hp ↦ ⟨hp, by simp⟩
  | cons r l ih =>
    refine Meets.bind (meets_revoke hP hcleaning (hl r List.mem_cons_self)) fun _ ↦ ?_
    have hP' : (secretsSetting options).Permanent fun w ↦ P w ∧ r ∈ w.ghost.revoked :=
      fun _ _ _ _ hs ht hguar hp ↦ ⟨hP hs ht hguar hp.1, hguar.1.revoked hp.2⟩
    refine (ih (fun r' hr' ↦ hl r' (List.mem_cons_of_mem _ hr')) hP'
      fun w hp ↦ hcleaning w hp.1).conseq (fun _ _ hp ↦ hp) (fun _ w _ hq ↦ ?_)
        fun _ _ _ _ ↦ trivial
    obtain ⟨⟨hp, hr⟩, hrest⟩ := hq
    exact ⟨hp, List.forall_mem_cons.mpr ⟨hr, hrest⟩⟩

/-- Nothing that is being cleaned up is retained, so that all of it is revoked. -/
theorem revoke_of_unbound {attempt committed : List SessionMcpBinding}
    {attemptEnvironment committedEnvironment : Option SessionEnvironmentCredentialBinding}
    (h : ∀ r ∈ inlineReferences attempt ++ environmentReferences attemptEnvironment,
      r ∉ inlineReferences committed ∧
        r ∉ environmentReferences committedEnvironment) (r : String) :
    r ∈ (planSessionToolCommitRecovery attempt committed attemptEnvironment
        committedEnvironment).revoke ↔
      r ∈ inlineReferences attempt ++ environmentReferences attemptEnvironment := by
  rw [planSessionToolCommitRecovery, List.mem_eraseDups, List.mem_filter, and_iff_left_iff_imp]
  intro hr
  simpa using h r hr

/-- The Session is not bound to anything that is being cleaned up. -/
theorem not_retained {w : ToolWorld} {references : List String} {r : String}
    (hinv : ToolWorld.Consistent options.reference w) (hcleaning : w.Cleaning id references)
    (hr : r ∈ references) :
    r ∉ inlineReferences (((liveRecord (w.records .tools)).map (·.value)).getD []) ∧
      r ∉ environmentReferences ((liveRecord (w.records .environment)).map (·.value)) := by
  obtain ⟨record, hrecord, hstatus, rfl⟩ := hcleaning
  have hunbound : ¬ w.Bound r := hinv.unbound id record hrecord hstatus r hr
  refine ⟨fun hmem ↦ hunbound (.inl ?_), fun hmem ↦ hunbound (.inr ?_)⟩
  · cases hlive : liveRecord (w.records .tools) with
    | none =>
      rw [hlive] at hmem
      simp [inlineReferences] at hmem
    | some bindings => exact ⟨bindings, hlive, by simpa [hlive] using hmem⟩
  · cases hlive : liveRecord (w.records .environment) with
    | none =>
      rw [hlive] at hmem
      simp [environmentReferences] at hmem
    | some environment =>
      exact ⟨environment, hlive, by simpa [hlive, environmentReferences] using hmem⟩

theorem meets_clean {w₁ : ToolWorld} (cleanup : Versioned SessionToolAttempt)
    (hreference : Function.Injective2 options.reference)
    (hrecorded : w₁.attempt? id = some ⟨cleanup.revision, ⟨cleanup.value, false⟩⟩)
    (hstatus : cleanup.value.status = .cleanup) :
    (secretsSetting options).Meets p (fun w ↦ w₁.Since w) (clean id cleanup)
      (fun _ w ↦ ∀ r ∈ cleanup.value.references, r ∈ w.ghost.revoked) fun _ _ ↦ True := by
  have hcleaning : ∀ w : ToolWorld, w₁.Since w → w.Cleaning id cleanup.value.references :=
    fun w hsince ↦ ToolWorld.Cleaning.since ⟨_, hrecorded, hstatus, rfl⟩ hsince
  refine meets_read (permanent_since w₁) fun w₂ hinv₂ hsince₂ ↦ ?_
  refine meets_read (permanent_since w₂) fun w₃ hinv₃ hsince₃ ↦ ?_
  have hsince₁ : w₁.Since w₃ := hsince₂.trans hsince₃
  have hrevoke := revoke_of_unbound fun r hr ↦
    ⟨(not_retained hinv₂ (hcleaning w₂ hsince₂) hr).1,
      (not_retained hinv₃ (hcleaning w₃ hsince₁) hr).2⟩
  refine Meets.bind (meets_revokeAll _ (fun r hr ↦ (hrevoke r).mp hr) (permanent_since w₃)
    fun w hsince ↦ hcleaning w (hsince₁.trans hsince)) fun _ ↦ ?_
  have hP : (secretsSetting options).Permanent fun w ↦ w₁.Since w ∧
      ∀ r ∈ cleanup.value.references, r ∈ w.ghost.revoked :=
    permanent_of_since fun w w' hsince hp ↦
      ⟨hp.1.trans hsince, fun r hr ↦ hsince.revoked (hp.2 r hr)⟩
  refine Meets.bind ((meets_update id ⟨cleanup.revision + 1, ⟨cleanup.value, true⟩⟩ hreference hP
    fun w st hinv hp hst ↦ ?_).pre fun w _ hw ↦ ?_) fun _ ↦ meets_ret fun w _ hq ↦ hq.1.2
  · have hfound : ToolWorld.attempt? w id = some ⟨cleanup.revision, ⟨cleanup.value, false⟩⟩ :=
      Store.commit_of_seen hst (List.mem_singleton.mpr rfl) rfl
        (hrecorded ▸ hp.1.records (.attempt id))
    exact ToolWorld.update_of_drop hinv hst hfound (.inr ⟨hstatus, hp.2⟩)
  · exact ⟨hsince₁.trans hw.1, fun r hr ↦ hw.2 r ((hrevoke r).mpr hr)⟩

/-- What the attempt named in this state has been revoked, unless the attempt was adopted. -/
def Reconciled (w₀ : ToolWorld) (id : String) (w : ToolWorld) : Prop :=
  ∀ record, w₀.attempt? id = some record →
    w.Adopted id ∨ ∀ r ∈ record.value.value.references, r ∈ w.ghost.revoked

/-- An attempt whose record is gone has been adopted, or cleaned up. -/
theorem reconciled_of_gone {w₀ w₁ w : ToolWorld}
    (hinv : ToolWorld.Consistent options.reference w₁) (hsince : w₀.Since w₁) (hs : w₁.Since w)
    (hgone : liveRecord (w₁.attempt? id) = none) : Reconciled w₀ id w := by
  intro record hrecord
  obtain ⟨record', hrecord', hmoves⟩ := hsince.attempts id record hrecord
  have hdeleted : record'.value.deleted = true := by
    by_contra hlive
    rw [Bool.not_eq_true] at hlive
    have hfound : liveRecord (w₁.attempt? id) = some ⟨record'.revision, record'.value.value⟩ :=
      liveRecord_eq_some.mpr (by rw [hrecord', ← hlive])
    rw [hgone] at hfound
    cases hfound
  cases hstatus : record'.value.value.status with
  | pending =>
    obtain ⟨-, hlive⟩ := hinv.pending id record' hrecord' hstatus
    rw [hdeleted] at hlive
    cases hlive
  | adopted => exact .inl (ToolWorld.Adopted.since ⟨record', hrecord', hstatus⟩ hs)
  | cleanup =>
    refine .inr fun r hr ↦ hs.revoked ?_
    exact hinv.cleaned id record' hrecord' hstatus hdeleted r (hmoves.references ▸ hr)

theorem adopted_of_plan {attempt : SessionToolAttempt} {now : ℕ} {abandon : Bool}
    (h : planSessionToolReconciliation attempt now abandon = .adopted) :
    attempt.status = .adopted := by
  unfold planSessionToolReconciliation at h
  split at h
  · assumption
  · split at h <;> cases h

theorem not_adopted_of_plan {attempt : SessionToolAttempt} {now : ℕ} {abandon : Bool}
    (h : planSessionToolReconciliation attempt now abandon = .cleanup) :
    attempt.status ≠ .adopted := by
  unfold planSessionToolReconciliation at h
  split at h
  · cases h
  · assumption

/-- A caller that finds an attempt cleaned up, or cleans it up, leaves nothing of it behind. -/
theorem meets_reconcile {abandon : Bool} {w₀ : ToolWorld}
    (hreference : Function.Injective2 options.reference) :
    (secretsSetting options).Meets p (fun w ↦ w₀.Since w) (reconcile id abandon)
      (fun reconciled w ↦ reconciled = .cleaned → Reconciled w₀ id w) fun _ _ ↦ True := by
  refine meets_read (permanent_since w₀) fun w₁ hinv₁ hsince₁ ↦ ?_
  split
  · next hgone =>
    exact meets_ret fun w _ hs _ ↦ reconciled_of_gone hinv₁ hsince₁ hs hgone
  next resource hlive =>
  have hfound : w₁.attempt? id = some ⟨resource.revision, ⟨resource.value, false⟩⟩ :=
    liveRecord_eq_some.mp hlive
  have hseen : ∀ w st, w₁.Since w → ∀ value : Option (Kept SessionToolAttempt),
      w.records.commit [⟨.attempt id, resource.revision, value⟩] = some st →
        w.attempt? id = some ⟨resource.revision, ⟨resource.value, false⟩⟩ :=
    fun w st hsince value hst ↦ Store.commit_of_seen hst (List.mem_singleton.mpr rfl) rfl
      (hfound ▸ hsince.records (.attempt id))
  -- Revoking what the attempt names now revokes what it named at first.
  have hrevoked : ∀ w : ToolWorld, (∀ r ∈ resource.value.references, r ∈ w.ghost.revoked) →
      Reconciled w₀ id w := by
    intro w hall record hrecord
    obtain ⟨record', hrecord', hmoves⟩ := hsince₁.attempts id record hrecord
    obtain rfl := Option.some.inj (hfound.symm.trans hrecord')
    exact .inr fun r hr ↦ hall r (hmoves.references ▸ hr)
  refine yields_now.seq (permanent_since w₁) fun now _ ↦ ?_
  split
  · exact meets_ret fun _ _ _ h ↦ by cases h
  · next hplan =>
    refine Meets.bind (meets_update id ⟨resource.revision + 1, ⟨resource.value, true⟩⟩ hreference
      (permanent_since w₁) fun w st hinv hsince hst ↦ ?_) fun _ ↦ meets_ret fun _ _ _ h ↦ by cases h
    exact ToolWorld.update_of_drop hinv hst (hseen w st hsince _ hst) (.inl (adopted_of_plan hplan))
  · next hplan =>
    split
    · next hstatus =>
      exact (meets_clean resource hreference hfound hstatus).conseq (fun _ _ hs ↦ hs)
        (fun _ w _ hall _ ↦ hrevoked w hall) fun _ _ _ _ ↦ trivial
    · next hstatus =>
      have hpending : resource.value.status = .pending := by
        have hne := not_adopted_of_plan hplan
        cases h : resource.value.status <;> simp_all
      refine Meets.bind (meets_update id
        ⟨resource.revision + 1, ⟨{ resource.value with status := .cleanup }, false⟩⟩
        hreference (permanent_since w₁) fun w st hinv hsince hst ↦ ?_) fun _ ↦
          RecordSpec.meets_start fun w₂ hinv₂ hw₂ ↦ ?_
      · exact ToolWorld.update_of_fence hreference hinv hst (hseen w st hsince _ hst) hpending
      · exact (meets_clean ⟨resource.revision + 1, _⟩ hreference hw₂.2 rfl).conseq
          (fun _ _ hs ↦ hs) (fun _ w _ hall _ ↦ hrevoked w hall) fun _ _ _ _ ↦ trivial

theorem yields_reconcile {abandon : Bool} (hreference : Function.Injective2 options.reference) :
    (secretsSetting options).Yields p (reconcile id abandon) fun _ ↦ True :=
  RecordSpec.meets_start fun _ _ _ ↦ (meets_reconcile hreference).conseq
    (fun _ _ hs ↦ hs) (fun _ _ _ _ ↦ trivial) fun _ _ _ _ ↦ trivial

/-! ## Closing -/

/-- A record is unbound in the transaction that records the clean-up of what it named. -/
theorem yields_closeRecord {k : ToolKey} {bindings : k.Payload → List SessionMcpBinding}
    {environment : k.Payload → Option SessionEnvironmentCredentialBinding}
    (hreference : Function.Injective2 options.reference)
    (hupdate : ∀ (w : ToolWorld) st id now (resource : Versioned k.Payload),
      ToolWorld.Consistent options.reference w →
      w.records.commit [tombstone resource, ⟨.attempt id, 0,
        some ⟨⟨bindings resource.value, environment resource.value, .cleanup, now⟩, false⟩⟩] =
          some st →
      Slot.Precedes (some ⟨resource.revision, ⟨resource.value, false⟩⟩) (w.records k) →
      w.Update options.reference id
        ⟨1, ⟨⟨bindings resource.value, environment resource.value, .cleanup, now⟩, false⟩⟩
        ⟨st, w.ghost⟩) :
    (secretsSetting options).Yields p (closeRecord k bindings environment) fun _ ↦ True := by
  refine meets_read (permanent_of_since fun _ _ _ h ↦ h) fun w₁ hinv₁ _ ↦ ?_
  split
  · exact meets_ret fun _ _ _ ↦ trivial
  next resource hlive =>
  refine yields_randomUUID.seq (permanent_since w₁) fun id _ ↦
    yields_now.seq (permanent_since w₁) fun now _ ↦ ?_
  refine Meets.bind (meets_update id _ hreference (permanent_since w₁)
    fun w st hinv hsince hst ↦ hupdate w st id now resource hinv hst ?_) fun _ ↦ ?_
  · exact liveRecord_eq_some.mp hlive ▸ hsince.records k
  · exact (Yields.bind (yields_reconcile hreference) fun _ _ ↦ yields_ret trivial).pre
      fun _ _ _ ↦ trivial

theorem yields_close (hreference : Function.Injective2 options.reference) :
    (secretsSetting options).Yields p close fun _ ↦ True :=
  Yields.bind (F := fun _ ↦ True)
    (yields_closeRecord hreference fun _ _ _ _ _ hinv hst hseen ↦
      ToolWorld.update_of_closing_environment hreference hinv hst hseen)
    fun _ _ ↦ yields_closeRecord hreference fun _ _ _ _ _ hinv hst hseen ↦
      ToolWorld.update_of_closing_tools hreference hinv hst hseen

theorem yields_preparationWrites {ws : List (Write ToolKey ToolValue)}
    (hws : ∀ w' ∈ ws, w'.key = .preparation ∧ w'.value.isSome) :
    (secretsSetting options).Yields p (commitWrites ws) fun _ ↦ True := by
  refine (meets_commitWrites (P := fun _ ↦ True) (R := fun _ ↦ True)
    (fun _ _ _ _ _ _ _ h ↦ h) fun w st hinv _ hst ↦ ?_).conseq (fun _ _ h ↦ h)
      (fun _ _ _ _ ↦ trivial) fun _ _ _ h ↦ h
  obtain ⟨hinv', hsince⟩ := ToolWorld.consistent_of_preparation hinv hst hws
  exact ⟨⟨hinv', hsince, trivial⟩, trivial⟩

theorem yields_reconcilePreparation (hreference : Function.Injective2 options.reference) :
    (secretsSetting options).Yields p reconcilePreparation fun _ ↦ True := by
  refine Yields.bind (F := fun _ ↦ True) yields_read fun preparation _ ↦ ?_
  split
  · exact yields_ret trivial
  · refine Yields.bind yields_now fun now _ ↦ ?_
    split
    · exact yields_ret trivial
    · exact yields_ret trivial
    · have hclose : (secretsSetting options).Yields p
          (do
            close
            pure PreparationReconciled.cleaned) fun _ ↦ True :=
        Yields.bind (yields_close hreference) fun _ _ ↦ yields_ret trivial
      split
      · exact hclose
      · exact Yields.bind (yields_preparationWrites (by simp)) fun _ _ ↦ hclose

theorem yields_savePreparation {value : SessionPreparation} :
    (secretsSetting options).Yields p (savePreparation value) fun _ ↦ True := by
  refine Yields.bind (F := fun _ ↦ True) yields_read fun preparation _ ↦ ?_
  split <;> exact yields_preparationWrites (by simp)

/-! ## Preparing

The attempt is recorded with the names of its secrets before any of them is created. -/

theorem yields_requirePending {message : String} :
    (secretsSetting options).Yields p (requirePending message id) fun _ ↦ True := by
  refine Yields.bind (F := fun _ ↦ True) yields_read fun current _ ↦ ?_
  split
  · exact yields_raise
  · split
    · exact yields_raise
    · refine Yields.bind yields_now fun now _ ↦ ?_
      split
      · exact yields_raise
      · exact yields_ret trivial

/-- Secrets are created under references that a recorded attempt names. -/
theorem meets_createSecrets {message : String} {w₀ : ToolWorld}
    (secrets : List (SessionCredentialSecret × String))
    (hnamed : ∀ secret ∈ secrets, w₀.Named secret.2) :
    (secretsSetting options).Meets p (fun w ↦ w₀.Since w) (createSecrets message id secrets)
      (fun _ w ↦ w₀.Since w) fun _ _ ↦ True := by
  induction secrets with
  | nil => exact meets_ret fun _ _ hs ↦ hs
  | cons secret rest ih =>
    refine yields_requirePending.seq (permanent_since w₀) fun _ _ ↦ ?_
    have hask : (secretsSetting options).Meets p (fun w ↦ w₀.Since w)
        (attempt (ask (.createSecret secret.1 secret.2))) (fun _ w ↦ w₀.Since w)
        fun _ _ ↦ True := by
      refine Meets.bind (M := fun _ w ↦ w₀.Since w) ?_ fun a ↦ ?_
      · refine (RecordSpec.meets_ask (R := fun _ _ ↦ True) (permanent_since w₀)
          fun w x a g hinv hs _ ha ↦ ?_).conseq (fun _ _ hs ↦ hs) (fun _ _ _ hq ↦ hq.1)
            fun _ _ _ h ↦ h
        obtain ⟨hinv', hsince⟩ := ToolWorld.consistent_of_create p.1 hinv
          ((hnamed secret List.mem_cons_self).since hs) ha
        exact ⟨⟨hinv', hsince, trivial⟩, trivial⟩
      · cases a with
        | ok a => exact meets_ret fun _ _ hs ↦ hs
        | error e => exact meets_raise fun _ _ _ ↦ trivial
    exact Meets.bind hask fun _ ↦ ih fun s hs ↦ hnamed s (List.mem_cons_of_mem _ hs)

theorem yields_checkAuthorization {vaultIds : List String} (prepared : List PreparedTransport) :
    (secretsSetting options).Yields p (checkAuthorization vaultIds prepared) fun _ ↦ True := by
  induction prepared with
  | nil => exact yields_ret trivial
  | cons transport rest ih =>
    unfold checkAuthorization
    split
    · exact ih
    · refine Yields.bind (yields_attempt (yields_ask fun _ _ _ _ h ↦ by cases h; rfl))
        fun credential _ ↦ ?_
      split
      · exact yields_raise
      · exact ih

theorem yields_environmentCredentials {request : PrepareRequest} :
    (secretsSetting options).Yields p (environmentCredentials options request) fun _ ↦ True := by
  unfold environmentCredentials
  split
  · exact yields_ret trivial
  · split
    · exact yields_ret trivial
    · split
      · exact yields_raise
      · exact yields_attempt (yields_ask fun _ _ _ _ h ↦ by cases h; rfl)

theorem yields_recover {attempt : SessionToolAttempt} {resumePreparation : Bool}
    {error : ServiceFailure} (hreference : Function.Injective2 options.reference) :
    (secretsSetting options).Yields p (recover id attempt resumePreparation error)
      fun _ ↦ True := by
  refine Yields.bind (F := fun _ ↦ True) (Yields.catching ?_ fun _ ↦ yields_ret trivial)
    fun result _ ↦ ?_
  · exact Yields.bind (yields_reconcile hreference) fun _ _ ↦ yields_ret trivial
  · split
    · exact yields_ret trivial
    · refine Yields.bind (F := fun _ ↦ True) (yields_read.catching fun _ ↦ yields_ret trivial)
        fun winner _ ↦ ?_
      refine Yields.bind (F := fun _ ↦ True) (yields_read.catching fun _ ↦ yields_ret trivial)
        fun environmentWinner _ ↦ ?_
      split
      · exact yields_raise
      · split
        · exact yields_ret trivial
        · exact yields_raise

/-- What a caller prepares carries references of its own attempt. -/
theorem reserved_prepared {prepared : List PreparedTransport} {hosted : Option String}
    {credentials : List EnvironmentCredentialAuth} {status : AttemptStatus} {deadline : ℕ} :
    SessionToolAttempt.Reserved options.reference id
      ⟨prepared.map (toolBinding options id), environmentBinding options hosted credentials id,
        status, deadline⟩ := by
  refine ⟨fun r hr ↦ ?_, fun r hr ↦ ?_⟩
  · obtain ⟨binding, hmem, href⟩ := List.mem_filterMap.mp hr
    obtain ⟨transport, -, rfl⟩ := List.mem_map.mp hmem
    simp only [toolBinding] at href
    split at href
    · cases href
    · exact ⟨transport.serverLabel, (Option.some.inj href).symm⟩
  · simp only [environmentBinding] at hr
    split at hr
    · simp [environmentReferences] at hr
    · split at hr
      · simp [environmentReferences] at hr
      · simp only [environmentReferences, Option.map_some, Option.getD_some, List.mem_map] at hr
        obtain ⟨index, -, rfl⟩ := hr
        exact ⟨_, index, rfl⟩

theorem mem_of_toolSecrets {prepared : List PreparedTransport} {bindings : List SessionMcpBinding}
    {secret : SessionCredentialSecret × String} (h : secret ∈ toolSecrets prepared bindings) :
    secret.2 ∈ inlineReferences bindings := by
  obtain ⟨⟨transport, binding⟩, hmem, hsecret⟩ := List.mem_filterMap.mp h
  obtain ⟨reference, href, rfl⟩ := Option.map_eq_some_iff.mp hsecret
  exact List.mem_filterMap.mpr ⟨binding, (List.of_mem_zip hmem).2, href⟩

theorem mem_of_environmentSecrets {credentials : List EnvironmentCredentialAuth}
    {environment : Option SessionEnvironmentCredentialBinding}
    {secret : SessionCredentialSecret × String}
    (h : secret ∈ environmentSecrets credentials environment) :
    secret.2 ∈ environmentReferences environment := by
  cases environment with
  | none => cases h
  | some environment =>
    obtain ⟨⟨auth, reference⟩, hmem, rfl⟩ := List.mem_map.mp h
    exact (List.of_mem_zip hmem).2

theorem meets_adopt {prepared : List PreparedTransport}
    {credentials : List EnvironmentCredentialAuth} {value : SessionToolAttempt}
    {preparation : Option (Versioned SessionPreparation)} {w₁ : ToolWorld}
    (hreference : Function.Injective2 options.reference)
    (hrecorded : w₁.attempt? id = some ⟨1, ⟨value, false⟩⟩) (hpending : value.status = .pending) :
    (secretsSetting options).Meets p (fun w ↦ w₁.Since w)
      (adopt prepared credentials id value preparation) (fun _ _ ↦ True) fun _ _ ↦ True := by
  have hnamed : ∀ r ∈ value.references, w₁.Named r := fun r hr ↦ ⟨id, _, hrecorded, hr⟩
  refine Meets.bind (meets_createSecrets _ fun secret hs ↦
    hnamed _ (List.mem_append_left _ (mem_of_toolSecrets hs))) fun _ ↦ ?_
  refine Meets.bind (meets_createSecrets _ fun secret hs ↦
    hnamed _ (List.mem_append_right _ (mem_of_environmentSecrets hs))) fun _ ↦ ?_
  refine (meets_update id _ hreference (permanent_since w₁) fun w st hinv hsince hst ↦
    ToolWorld.update_of_adoption hinv hst hpending ?_).conseq (fun _ _ hs ↦ hs)
      (fun _ _ _ _ ↦ trivial) fun _ _ _ h ↦ h
  exact hrecorded ▸ hsince.records (.attempt id)

theorem yields_prepareAttempt {request : PrepareRequest}
    {preparation : Option (Versioned SessionPreparation)}
    (hreference : Function.Injective2 options.reference) :
    (secretsSetting options).Yields p (prepareAttempt options request preparation)
      fun _ ↦ True := by
  refine Yields.bind (F := fun _ ↦ True) (yields_ofExcept fun _ _ ↦ trivial) fun prepared _ ↦ ?_
  refine Yields.bind (yields_attempt (yields_ask fun _ _ _ _ h ↦ by cases h; rfl)) fun _ _ ↦ ?_
  refine Yields.bind (yields_checkAuthorization prepared) fun _ _ ↦ ?_
  refine Yields.bind yields_randomUUID fun attemptId _ ↦ ?_
  refine Yields.bind yields_environmentCredentials fun credentials _ ↦ ?_
  refine Yields.bind yields_now fun now _ ↦ ?_
  refine Meets.bind (meets_update attemptId _ hreference (P := fun _ ↦ True)
    (fun _ _ _ _ _ _ _ h ↦ h) fun w st hinv _ hst ↦
      ToolWorld.update_of_intent hinv hst rfl reserved_prepared) fun _ ↦
        RecordSpec.meets_start fun w₁ _ hw₁ ↦ ?_
  exact Meets.catching (meets_adopt hreference hw₁.2 rfl) fun error ↦ yields_recover hreference

theorem yields_prepare {request : PrepareRequest}
    (hreference : Function.Injective2 options.reference) :
    (secretsSetting options).Yields p (prepare options request) fun _ ↦ True := by
  refine Yields.bind (F := fun _ ↦ True) yields_read fun preparation _ ↦ ?_
  refine Yields.bind (F := fun _ ↦ True) ?_ fun _ _ ↦ ?_
  · unfold requireActive
    split
    · exact yields_ret trivial
    · split
      · exact yields_ret trivial
      · exact Yields.bind yields_now fun now _ ↦ yields_orRefuse.forget
  · split
    · refine Yields.bind (F := fun _ ↦ True) yields_read fun bound _ ↦ ?_
      split
      · exact yields_ret trivial
      · exact yields_prepareAttempt hreference
    · exact yields_prepareAttempt hreference

/-! ## Every run -/

theorem yields_settle {reference : String} :
    (secretsSetting options).Yields p (ask (.settleSecret reference)) fun _ ↦ True := by
  refine (RecordSpec.meets_ask (P := fun _ ↦ True) (R := fun _ _ ↦ True)
    (fun _ _ _ _ _ _ _ h ↦ h) fun w x a g hinv _ _ ha ↦ ?_).conseq (fun _ _ h ↦ h)
      (fun _ _ _ _ ↦ trivial) fun _ _ _ h ↦ h
  cases ha
  obtain ⟨hinv', hsince⟩ := ToolWorld.consistent_of_settle (r := reference) hinv
  exact ⟨⟨hinv', hsince, trivial⟩, trivial⟩

theorem yields_body (hreference : Function.Injective2 options.reference) :
    (secretsSetting options).Yields p (body options p.2) fun _ ↦ True := by
  cases p.2 with
  | prepare request =>
    exact Yields.bind (yields_prepare hreference) fun _ _ ↦ yields_ret trivial
  | reconcile attemptId abandon =>
    exact Yields.bind (yields_reconcile hreference) fun _ _ ↦ yields_ret trivial
  | close => exact Yields.bind (yields_close hreference) fun _ _ ↦ yields_ret trivial
  | reconcilePreparation =>
    exact Yields.bind (yields_reconcilePreparation hreference) fun _ _ ↦ yields_ret trivial
  | savePreparation value =>
    exact Yields.bind yields_savePreparation fun _ _ ↦ yields_ret trivial
  | settle reference => exact Yields.bind yields_settle fun _ _ ↦ yields_ret trivial

theorem consistent_freshTools {reference : CredentialScope → String → String} :
    ToolWorld.Consistent reference freshTools where
  numbered _ _ h := nomatch h
  pending _ _ h := nomatch h
  reserved _ _ h := nomatch h
  tools := by
    rintro r ⟨bindings, hlive, -⟩
    cases hlive
  environment := by
    rintro r ⟨environment, hlive, -⟩
    cases hlive
  cleanup _ _ h := nomatch h
  unbound _ _ h := nomatch h
  revoked _ h := nomatch h
  cleaned _ _ h := nomatch h
  covered := by
    rintro r ⟨id, record, hrecord, -⟩
    cases hrecord
  requested _ h := nomatch h
  created _ h := nomatch h

theorem verified (hreference : Function.Injective2 options.reference) :
    (secretsSetting options).Verified freshTools (fun _ _ _ ↦ True) fun _ _ _ ↦ True where
  init := consistent_freshTools
  body _ := (yields_body hreference).pre fun _ _ _ ↦ trivial
  post_stable _ _ := stable_true
  fail_stable _ _ := stable_true

/-! ## A clean-up on its own

If nobody else makes a step, a clean-up that ends without an error has revoked what was named. -/

section Alone

variable {pid : ℕ} {w : ToolWorld}

theorem alone_ask {q : ToolAsk} {a : q.Answer} {history : SecretHistory} (x : ToolChoice)
    (h : toolAnswer pid q x w.ghost = some (a, history)) :
    Alone (service options) .free pid w (ask q) ⟨w.records, history⟩ (.ret a) :=
  Concurrent.alone_ask _ _ h

theorem alone_attempt {m : ToolProg (Except ServiceFailure α)} {w' : ToolWorld} {a : α}
    (h : Alone (service options) .free pid w m w' (.ret (.ok a))) :
    Alone (service options) .free pid w (attempt m) w' (.ret a) :=
  h.bind _

theorem alone_read (k : ToolKey) :
    Alone (service options) .free pid w (read k) w (.ret (liveRecord (w.records k))) := by
  have hreach : Alone (service options) .free pid w (attempt (ask .reach)) w (.ret ()) :=
    alone_attempt (alone_ask {} rfl)
  exact (hreach.bind _).trans ((alone_get _ _ k ⟨{}, .acknowledged⟩).bind _)

theorem alone_revokeAll (l : List String) :
    Alone (service options) .free pid w (revokeAll l)
      ⟨w.records, { w.ghost with revoked := w.ghost.revoked ++ l }⟩ (.ret ()) := by
  induction l generalizing w with
  | nil =>
    rw [List.append_nil]
    exact .refl _ _
  | cons r l ih =>
    have hrevoke : Alone (service options) .free pid w (attempt (ask (.revokeSecret r)))
        ⟨w.records, { w.ghost with revoked := w.ghost.revoked ++ [r] }⟩ (.ret ()) :=
      alone_attempt (alone_ask {} rfl)
    have hrest := (hrevoke.bind fun _ ↦ revokeAll l).trans ih
    rwa [List.append_assoc, List.singleton_append] at hrest

theorem alone_write {ws : List (Write ToolKey ToolValue)} {st : Store ToolKey ToolValue}
    (h : w.records.commit ws = some st) :
    Alone (service options) .free pid w (commitWrites ws) ⟨st, w.ghost⟩ (.ret ()) :=
  alone_commitWrites ({} : ToolChoice) h

/-- Whoever cleans up undisturbed revokes everything that the attempt names. -/
theorem alone_clean (pid : ℕ) (cleanup : Versioned SessionToolAttempt)
    (hinv : ToolWorld.Consistent options.reference w)
    (hrecorded : w.attempt? id = some ⟨cleanup.revision, ⟨cleanup.value, false⟩⟩)
    (hstatus : cleanup.value.status = .cleanup) :
    ∃ w' : ToolWorld, Alone (service options) .free pid w (clean id cleanup) w' (.ret .cleaned) ∧
      ∀ r ∈ cleanup.value.references, r ∈ w'.ghost.revoked := by
  have hcleaning : w.Cleaning id cleanup.value.references := ⟨_, hrecorded, hstatus, rfl⟩
  have hrevoke := revoke_of_unbound fun r hr ↦ not_retained hinv hcleaning hr
  let revoke := (planSessionToolCommitRecovery cleanup.value.bindings
    (((liveRecord (w.records .tools)).map (·.value)).getD []) cleanup.value.environment
    ((liveRecord (w.records .environment)).map (·.value))).revoke
  let dropped : Write ToolKey ToolValue := tombstone (k := .attempt id) cleanup
  have hst : w.records.commit [dropped] = some (w.records.apply dropped) := by
    refine Store.commit_singleton.mpr ⟨?_, rfl⟩
    have hfound : w.records (.attempt id) = some ⟨cleanup.revision, ⟨cleanup.value, false⟩⟩ :=
      hrecorded
    simp [Store.Admits, dropped, tombstone, hfound]
  let history : SecretHistory := { w.ghost with revoked := w.ghost.revoked ++ revoke }
  have hdrop : Alone (service options) .free pid ⟨w.records, history⟩ (commitWrites [dropped])
      ⟨w.records.apply dropped, history⟩ (.ret ()) := alone_write hst
  refine ⟨⟨w.records.apply dropped, history⟩, ?_,
    fun r hr ↦ List.mem_append_right _ ((hrevoke r).mpr hr)⟩
  refine ((alone_read .tools).bind _).trans (((alone_read .environment).bind _).trans ?_)
  refine ((alone_revokeAll revoke).bind _).trans ?_
  exact hdrop.bind _

/-- An attempt that was not adopted can be cleaned up as soon as its deadline has passed. -/
theorem alone_reconcile (pid : ℕ) {r : String} (hreference : Function.Injective2 options.reference)
    (hinv : ToolWorld.Consistent options.reference w) (hawaits : w.Awaits id r) :
    ∃ w' : ToolWorld, Alone (service options) .free pid w (reconcile id false) w'
      (.ret .cleaned) ∧ r ∈ w'.ghost.revoked := by
  obtain ⟨⟨revision, value, deleted⟩, hrecord, rfl, hadopted, hr⟩ := hawaits
  have hlive : liveRecord (w.records (.attempt id)) = some ⟨revision, value⟩ :=
    liveRecord_eq_some.mpr hrecord
  have hplan : planSessionToolReconciliation value value.deadline false = .cleanup := by
    simp [planSessionToolReconciliation, hadopted]
  have hnow : Alone (service options) .free pid w (ask .now) w (.ret value.deadline) :=
    alone_ask { clock := value.deadline } rfl
  suffices hclean : ∃ w' : ToolWorld, Alone (service options) .free pid w
      (if value.status = .cleanup then clean id ⟨revision, value⟩
        else do
          commitWrites [⟨.attempt id, revision, some ⟨{ value with status := .cleanup }, false⟩⟩]
          clean id ⟨revision + 1, { value with status := .cleanup }⟩) w' (.ret .cleaned) ∧
      r ∈ w'.ghost.revoked by
    obtain ⟨w', halone, hrevoked⟩ := hclean
    refine ⟨w', ((alone_read (.attempt id)).bind _).trans ?_, hrevoked⟩
    rw [Prog.ret_bind, hlive]
    refine (hnow.bind _).trans ?_
    rw [Prog.ret_bind, hplan]
    exact halone
  split
  · next hstatus =>
    obtain ⟨w', halone, hrevoked⟩ := alone_clean pid ⟨revision, value⟩ hinv hrecord hstatus
    exact ⟨w', halone, hrevoked r hr⟩
  · next hstatus =>
    have hpending : value.status = .pending := by
      cases h : value.status <;> simp_all
    let fenced : SessionToolAttempt := { value with status := .cleanup }
    let fence : Write ToolKey ToolValue := ⟨.attempt id, revision, some ⟨fenced, false⟩⟩
    have hst : w.records.commit [fence] = some (w.records.apply fence) := by
      refine Store.commit_singleton.mpr ⟨?_, rfl⟩
      have hfound : w.records (.attempt id) = some ⟨revision, ⟨value, false⟩⟩ := hrecord
      simp [Store.Admits, fence, hfound]
    have hu := ToolWorld.update_of_fence hreference hinv hst hrecord hpending
    obtain ⟨w', halone, hrevoked⟩ :=
      alone_clean pid ⟨revision + 1, fenced⟩ (hu.consistent hreference hinv) hu.written rfl
    exact ⟨w', ((alone_write hst).bind _).trans halone, hrevoked r hr⟩

end Alone

/-! ## The result

`CredentialsKept` is about a state of a run and all later ones. -/

theorem meets_body_reconcile {abandon : Bool} {w₀ : ToolWorld}
    (hreference : Function.Injective2 options.reference) :
    (secretsSetting options).Meets p (fun w ↦ w₀.Since w) (body options (.reconcile id abandon))
      (fun answer w ↦ answer = some .cleaned → Reconciled w₀ id w) fun _ _ ↦ True :=
  Meets.bind (meets_reconcile hreference) fun _ ↦ meets_ret fun _ _ hcleaned h ↦
    hcleaned (Option.some.inj h)

theorem permanent_reconciled {w₀ : ToolWorld} :
    (secretsSetting options).Permanent (Reconciled w₀ id) :=
  permanent_of_since fun _ _ hs h record hrecord ↦
    (h record hrecord).imp (fun hadopted ↦ hadopted.since hs) fun hall r hr ↦ hs.revoked (hall r hr)

variable (options) in
/-- What holds of the Session's credentials in a state of a run, and from it on. -/
structure CredentialsKept (c : Config ToolWorld (RecordEffect ToolKey ToolValue ToolAsk)
    (RecordEffect.Answer ToolAsk.Answer) ServiceFailure (Option ToolReconciled) Call) : Prop where
  /-- No credential that the Session is bound to has been revoked. -/
  bound : ∀ r, ToolWorld.Bound c.state r → r ∉ c.state.ghost.revoked
  /-- No secret is forgotten. -/
  created : ∀ r ∈ c.state.ghost.created, ToolWorld.Bound c.state r ∨ r ∈ c.state.ghost.revoked ∨
    ∃ id, ToolWorld.Awaits c.state id r
  /-- Whoever reports that an attempt has been cleaned up has left nothing of it, unless the
  Session was bound to it. -/
  reconciled : ∀ pid id abandon c', c.procs pid =
      some (.reconcile id abandon, body options (.reconcile id abandon)) →
    Leads (service options) .free c c' →
    c'.outcome pid = some (.reconcile id abandon, some (.ok (some .cleaned))) →
    Reconciled c.state id c'.state
  /-- A later call can clean up whatever is left of an attempt. -/
  recoverable : ∀ id r, ToolWorld.Awaits c.state id r → ∃ pid c', c.procs pid = none ∧
    Leads (service options) .free c c' ∧
    c'.outcome pid = some (.reconcile id false, some (.ok (some .cleaned))) ∧
    r ∈ c'.state.ghost.revoked

/-- **Tool credentials neither leak nor die early.** -/
theorem tool_credentials_kept (hreference : Function.Injective2 options.reference)
    {c : Config ToolWorld (RecordEffect ToolKey ToolValue ToolAsk)
      (RecordEffect.Answer ToolAsk.Answer) ServiceFailure (Option ToolReconciled) Call}
    (hc : Reachable (service options) .free freshTools c) : CredentialsKept options c := by
  have hV := verified hreference
  have hsound := hV.reachable hc
  have hinv : ToolWorld.Consistent options.reference c.state := hsound.inv
  refine ⟨fun r hb hrevoked ↦ ?_, fun r hr ↦ hinv.covered r (hinv.requested r (hinv.created r hr)),
    fun pid id abandon c' hproc hlead hended ↦ ?_, fun id r hawaits ↦ ?_⟩
  · obtain ⟨id, record, hrecord, hstatus, hmem⟩ := hinv.revoked r hrevoked
    exact hinv.unbound id record hrecord hstatus r hmem hb
  · -- What was pending when a reconciliation began is settled when it says that it is done.
    obtain ⟨m, hproc', hsafe⟩ := hV.follow
      (Q := fun answer w ↦ answer = some .cleaned → Reconciled c.state id w)
      (fun _ _ _ _ _ hq hs ht hg h hcleaned ↦
        permanent_reconciled.stable hq hs ht hg (h hcleaned)) (fun _ ↦ stable_true)
      hsound hproc (meets_body_reconcile hreference c.state hinv (.refl c.state)) hlead
    rw [Config.procs_of_outcome hended] at hproc'
    cases hproc'
    exact hsafe rfl
  · -- A new reconciliation that runs alone and is answered every time revokes the credential.
    obtain ⟨pid, hfree⟩ := hc.bounded
    have hnone : c.procs pid = none := hfree pid le_rfl
    let call : Call := .reconcile id false
    let begun : Config ToolWorld (RecordEffect ToolKey ToolValue ToolAsk)
        (RecordEffect.Answer ToolAsk.Answer) ServiceFailure (Option ToolReconciled) Call :=
      ⟨c.state, Function.update c.procs pid (some (call, body options call))⟩
    have hstart : (service options).step c (.start pid call) = some begun := by
      simp only [Service.step, hnone]
      rfl
    have hproc : begun.procs pid = some (call, body options call) := Function.update_self ..
    obtain ⟨w', halone, hrevoked⟩ := alone_reconcile pid hreference hinv hawaits
    have hbody : Alone (service options) .free pid c.state (body options call) w'
        (.ret (some .cleaned)) := halone.bind _
    obtain ⟨c', hlead, rfl, hproc'⟩ := hbody.leads (c := begun) rfl hproc
    refine ⟨pid, c', hnone, (Leads.refl.step (permits_free c _) hstart).trans hlead, ?_, hrevoked⟩
    rw [Config.outcome, hproc']
    rfl

end SessionToolService

/-! ## A run -/

/-- References that write out what they are reserved for. -/
def sampleToolOptions : SessionToolOptions where
  reference scope id := digest
    (match scope with
      | .tool serverLabel => (Sum.inl serverLabel : String ⊕ String)
      | .environment environmentId => Sum.inr environmentId, id)
  snapshots := true

theorem sampleToolOptions_injective : Function.Injective2 sampleToolOptions.reference := by
  intro scope scope' id id' h
  obtain ⟨hscope, rfl⟩ := Prod.mk.inj (digest_injective h)
  refine ⟨?_, rfl⟩
  cases scope <;> cases scope' <;> simp_all

/-- One tool with an authorization of its own. -/
def samplePrepare : PrepareRequest where
  prepared := .ok [⟨"search", [("Authorization", "token")], [], none⟩]
  vaultIds := []
  resumePreparation := false
  hosted := none

/-- A caller stops after it has created its secret, another one prepares the Session, and a third
cleans up what the first has left behind. -/
def samplePreparation : List (Event SessionToolService.Call (RecordChoice ToolChoice)) :=
  let resumes := fun pid count (uuid : String) ↦
    (List.replicate count (.resume pid ⟨{ uuid }, .acknowledged⟩) :
      List (Event SessionToolService.Call (RecordChoice ToolChoice)))
  [.start 0 (.prepare samplePrepare)] ++ resumes 0 10 "a" ++
    [.start 1 (.prepare samplePrepare)] ++ resumes 1 11 "b" ++
    [.start 2 (.reconcile "a" true)] ++ resumes 2 10 ""

/-- The secret of the first caller has been revoked, and that of the second has not. -/
theorem samplePreparation_kept :
    ∃ c, (SessionToolService.service sampleToolOptions).run .free samplePreparation
        (.initial freshTools) = some c ∧
      ToolWorld.Bound c.state (sampleToolOptions.reference (.tool "search") "b") ∧
      sampleToolOptions.reference (.tool "search") "b" ∉ c.state.ghost.revoked ∧
      sampleToolOptions.reference (.tool "search") "a" ∈ c.state.ghost.revoked := by
  have hrun : (((SessionToolService.service sampleToolOptions).run .free samplePreparation
      (.initial freshTools)).map fun c ↦
        ((liveRecord (c.state.records .tools)).map (·.value), c.state.ghost.revoked)) =
      some (some [⟨"search", some (sampleToolOptions.reference (.tool "search") "b")⟩],
        [sampleToolOptions.reference (.tool "search") "a"]) := by
    decide +kernel
  obtain ⟨c, hc, hended⟩ := Option.map_eq_some_iff.mp hrun
  obtain ⟨htools, hrevoked⟩ := Prod.mk.inj hended
  have hkept := SessionToolService.tool_credentials_kept sampleToolOptions_injective
    (Service.leads_of_run hc)
  obtain ⟨bindings, hlive, hvalue⟩ := Option.map_eq_some_iff.mp htools
  have hbound : ToolWorld.Bound c.state (sampleToolOptions.reference (.tool "search") "b") :=
    .inl ⟨bindings, hlive, by rw [hvalue]; simp [inlineReferences]⟩
  exact ⟨c, hc, hbound, hkept.bound _ hbound, by rw [hrevoked]; simp⟩

end RatThings
