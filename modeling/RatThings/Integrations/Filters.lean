import RatThings.Integrations.Answers

/-!
# Candidates are stored and settled

A caller that stores a candidate has read the count of the hour and the version of the thread. One
that settles a candidate holds the record it claimed; it admits the candidate together with the
version of the thread it was stored with.

With the last two kinds of calls followed here, every call makes such moves only, and what the moves
preserve holds of every run. The version of the thread is not written when a candidate is admitted,
but the commit names it, so a commit that takes effect has found the version that the candidate was
stored with.
-/

namespace RatThings

open Concurrent Prog Service Setting SessionIntegrationService

section

variable {options : IntegrationOptions} {p : ℕ × IntegrationCall} {w : IntegrationWorld}

namespace EventCandidateService

/-! ## Receipts -/

theorem yields_explicitReceipt {bindingId threadKey inputId : String} :
    (integrationSetting options).Yields p (explicitReceipt bindingId threadKey inputId)
      fun _ ↦ True := by
  refine Yields.bind yields_readIntegration fun receipt _ ↦ ?_
  split
  · exact yields_ret trivial
  · split
    · exact yields_raise
    · refine Yields.bind yields_readIntegration fun occurrence _ ↦ ?_
      split <;> exact yields_ret trivial

theorem yields_explicitCopy {arrival : Arrival} :
    (integrationSetting options).Yields p (explicitCopy arrival) fun _ ↦ True := by
  refine Yields.bind yields_explicitReceipt fun receipt _ ↦ ?_
  split <;> exact yields_ret trivial

theorem yields_receipt {arrival : Arrival} :
    (integrationSetting options).Yields p (receipt arrival) fun _ ↦ True := by
  refine Yields.bind yields_explicitCopy fun explicit _ ↦ ?_
  split
  · exact yields_ret trivial
  · refine Yields.bind yields_readIntegration fun previous _ ↦ ?_
    split
    · exact yields_ret trivial
    · split
      · exact yields_raise
      · exact yields_ret trivial

/-! ## Storing

The count is compared with the cap when it was read, and the commit finds it unchanged. -/

theorem newCandidate_isAdmitted {arrival : Arrival} {semantic : SemanticPolicy} {now version : ℕ}
    {capped : Bool} :
    (newCandidate options arrival semantic now version capped).isAdmitted = false := by
  cases capped <;> rfl

/-- A candidate below the cap is stored together with the count that it raises. -/
theorem moved_enqueue {arrival : Arrival} {semantic : SemanticPolicy} {now : ℕ}
    {w₀ w₁ w₂ : IntegrationWorld} {st : IntegrationStore} {limit marker : Slot ℕ}
    (hcap : ∀ policy other, options.policy arrival.bindingId = some policy →
      policy.semantic = some other → semantic.maxCandidatesPerHour ≤ other.maxCandidatesPerHour)
    (hlimit : w₀.records (.limit arrival.bindingId (now / 3600)) = limit)
    (hmarker : w₁.records (.marker arrival.bindingId arrival.threadKey) = marker)
    (hsince₀ : IntegrationsSince w₀ w₂) (hsince₁ : IntegrationsSince w₁ w₂)
    (hw₂ : IntegrationsKept options w₂)
    (hcommit : w₂.records.commit (enqueueWrites options arrival semantic now limit marker) =
      some st)
    {write : IntegrationWrite}
    (hwrite : write ∈ enqueueWrites options arrival semantic now limit marker) :
    Moved options w₂.ghost.delivered w₂.records st write.key := by
  have hversion : markerVersion marker ≤
      threadVersion w₂.records arrival.bindingId arrival.threadKey := by
    rw [← hmarker]
    exact (hsince₁.explicit arrival.bindingId arrival.threadKey).1
  unfold enqueueWrites at hcommit hwrite
  extract_lets capped at hcommit
  extract_lets at hwrite
  have hnew := Store.eq_none_of_commit hw₂.numbered hcommit List.mem_cons_self rfl
  -- A capped candidate is stored alone; otherwise the counter of the hour is raised with it.
  by_cases hcapped : capped = true
  · rw [if_pos hcapped] at hcommit hwrite
    obtain rfl := List.mem_singleton.mp hwrite
    refine .store _ hnew (moved_put hcommit).2.1 rfl rfl hversion newCandidate_isAdmitted fun h ↦ ?_
    rw [hcapped] at h
    cases h
  · rw [if_neg hcapped] at hcommit hwrite
    have hbelow : EventCandidateService.limitCount limit < semantic.maxCandidatesPerHour := by
      by_contra hnot
      exact hcapped (decide_eq_true (not_lt.mp hnot))
    obtain ⟨hcandidate, hcount⟩ := written_of_two hcommit (fun h ↦ by contradiction)
    -- The commit has found the counter that the decision was made from.
    have hseen : w₂.records (.limit arrival.bindingId (now / 3600)) = limit :=
      (seen_of_commit (List.mem_cons_of_mem _ List.mem_cons_self) hsince₀ hcommit
        (fun _ h ↦ by contradiction) (by rw [hlimit])).trans hlimit
    have hbefore : hourCount w₂.records arrival.bindingId (now / 3600) = limitCount limit := by
      rw [hourCount, hseen]
    have hafter : hourCount st arrival.bindingId (now / 3600) = limitCount limit + 1 := by
      rw [hourCount, hcount]
      rfl
    have hraised : hourCount st arrival.bindingId (now / 3600) =
        hourCount w₂.records arrival.bindingId (now / 3600) + 1 := by
      rw [hafter, hbefore]
    have hpending : (newCandidate options arrival semantic now
      (markerVersion marker) capped).state =
        .pending := if_neg hcapped
    rcases List.mem_cons.mp hwrite with rfl | hlast
    · exact .store _ hnew hcandidate rfl rfl hversion newCandidate_isAdmitted fun _ ↦ hraised
    · obtain rfl := List.mem_singleton.mp hlast
      refine ⟨by rw [hcount]; rfl, arrival.input.id, _, hnew, hcandidate, hpending,
        rfl, hraised, fun policy other hpolicy hother ↦ ?_, fun other hother ↦ ?_⟩
      · rw [hbefore]
        exact hbelow.trans_le (hcap policy other hpolicy hother)
      · refine Store.commit_frame hcommit fun write hwrite ↦ ?_
        rcases List.mem_cons.mp hwrite with rfl | hlast
        · intro heq
          cases heq
          exact hother rfl
        · obtain rfl := List.mem_singleton.mp hlast
          exact fun h ↦ by contradiction

theorem runs_enqueueAttempts {arrival : Arrival} {semantic : SemanticPolicy}
    (hcap : ∀ policy other, options.policy arrival.bindingId = some policy →
      policy.semantic = some other → semantic.maxCandidatesPerHour ≤ other.maxCandidatesPerHour)
    (attempts : ℕ) :
    Runs options p (fun _ ↦ True) (enqueueAttempts options arrival semantic attempts) := by
  induction attempts with
  | zero => exact runs_throw
  | succ attempts ih =>
    refine runs_start fun w _ ↦ runs_seq yields_receipt fun previous _ ↦ ?_
    split
    · exact runs_pure
    · refine runs_seq yields_askIntegration fun now _ ↦ runs_read fun w₀ _ _ ↦
        runs_read fun w₁ _ hsince₁ ↦ runs_seq yields_explicitCopy fun explicit _ ↦ ?_
      split
      · exact runs_pure
      · refine runs_retryCommit (runs_bind ?_ fun _ ↦ runs_pure) (.of_true ih)
        exact runs_commit (since_kept w₁) fun w₂ st hw₂ hsince₂ hcommit write hwrite ↦
          moved_enqueue hcap rfl rfl (hsince₁.trans hsince₂) hsince₂ hw₂ hcommit hwrite

theorem runs_enqueue {arrival : Arrival} {policy : SourceEventPolicy}
    (hpolicy : options.policy arrival.bindingId = some policy) :
    Runs options p (fun _ ↦ True) (enqueue options arrival policy) := by
  refine runs_start fun w _ ↦ runs_seq (yields_ofExcept fun _ _ ↦ trivial) fun _ _ ↦ ?_
  split
  · exact runs_throw
  · next semantic hsemantic =>
    split
    · exact runs_throw
    · refine Runs.of_true (runs_enqueueAttempts (fun policy' other hpolicy' hother ↦ ?_) 10)
      obtain rfl := Option.some.inj (hpolicy.symm.trans hpolicy')
      obtain rfl := Option.some.inj (hsemantic.symm.trans hother)
      exact le_rfl

/-! ## Explicit requests

The marker of the thread is raised in the commit that admits the request. -/

theorem runs_recordAttempts {bindingId threadKey inputId : String} (attempts : ℕ) :
    Runs options p (fun _ ↦ True) (recordAttempts bindingId threadKey inputId attempts) := by
  induction attempts with
  | zero => exact runs_throw
  | succ attempts ih =>
    refine runs_start fun w _ ↦ runs_read fun w₀ _ _ ↦ ?_
    split
    · exact runs_pure
    · refine runs_read fun w₁ _ _ ↦ runs_retryCommit ?_ (.of_true ih)
      refine runs_commit (since_kept w₁) fun w₂ st hw₂ hsince₂ hcommit write hwrite ↦ ?_
      unfold explicitWrites at hcommit hwrite
      obtain ⟨hreceipt, hmarker⟩ := written_of_two hcommit (fun h ↦ nomatch h)
      have hseen : w₂.records (.marker bindingId threadKey) =
          w₁.records (.marker bindingId threadKey) :=
        seen_of_commit (List.mem_cons_of_mem _ List.mem_cons_self) hsince₂ hcommit
          (fun _ h ↦ nomatch h) rfl
      have hraised : threadVersion st bindingId threadKey =
          threadVersion w₂.records bindingId threadKey + 1 := by
        rw [threadVersion, threadVersion, hmarker, hseen]
        rfl
      rcases List.mem_cons.mp hwrite with rfl | hlast
      · refine ⟨Store.eq_none_of_commit hw₂.numbered hcommit hwrite rfl, _, hreceipt, ?_⟩
        exact hraised ▸ Nat.lt_succ_self _
      · obtain rfl := List.mem_singleton.mp hlast
        refine ⟨by rw [hmarker]; rfl, ?_⟩
        exact hraised ▸ Nat.le_succ _

/-! ## Settling

The caller that claimed a candidate may be too late: another one has claimed it since. Then the
record it compares with is not the stored one, and nothing is written. -/

/-- The caller holds the candidate as it was read, and it was not settled. -/
def HoldsOpen (options : IntegrationOptions) (bindingId inputId : String)
    (current : Versioned EventCandidate) (w : IntegrationWorld) : Prop :=
  ∃ w₀, IntegrationsKept options w₀ ∧ IntegrationsSince w₀ w ∧
    w₀.records (.candidate bindingId inputId) = some current ∧ current.value.isSettled = false

theorem isAdmitted_withState {candidate : EventCandidate} {state : EventCandidateStatus}
    (h : ∀ decision, state ≠ .admitted decision) :
    (candidate.withState state).isAdmitted = false := by
  cases state with
  | admitted decision => exact absurd rfl (h decision)
  | pending | filtering leaseUntil | decided decision | discarded decision => rfl

/-- A candidate that is held goes on, but is not admitted. -/
theorem moved_advance {bindingId inputId : String} {current : Versioned EventCandidate}
    {state : EventCandidateStatus} {w₁ : IntegrationWorld} {st : IntegrationStore}
    (hseen : w₁.records (.candidate bindingId inputId) = some current)
    (hopen : current.value.isSettled = false)
    (hwritten : st (.candidate bindingId inputId) =
      some ⟨current.revision + 1, current.value.withState state⟩)
    (hstate : ∀ decision, state ≠ .admitted decision) :
    Moved options w₁.ghost.delivered w₁.records st (.candidate bindingId inputId) :=
  .advance current _ state hseen hopen hwritten rfl fun hadmitted ↦
    absurd hadmitted (by simp [isAdmitted_withState hstate])

theorem yields_threadText {candidate : EventCandidate} :
    (integrationSetting options).Yields p (threadText candidate) fun _ ↦ True := by
  refine Yields.bind yields_readIntegration fun subscription _ ↦ ?_
  split
  · exact yields_ret trivial
  · split
    · exact yields_ret trivial
    · refine Yields.bind yields_readIntegration fun integration _ ↦ ?_
      split <;> exact yields_ret trivial

theorem yields_filter {candidate : EventCandidate} {obsolete : Bool} :
    (integrationSetting options).Yields p (filter options candidate obsolete) fun _ ↦ True := by
  unfold filter
  extract_lets audit
  split
  · exact yields_ret trivial
  · refine Yields.bind yields_threadText fun text _ ↦
      Yields.bind yields_askIntegration fun answer _ ↦ ?_
    split <;> exact yields_ret trivial

theorem holdsOpen_permanent {bindingId inputId : String} {current : Versioned EventCandidate} :
    (integrationSetting options).Permanent (HoldsOpen options bindingId inputId current) := by
  intro q e w w' _ _ hguar ⟨w₀, hw₀, hsince, hread, hopen⟩
  exact ⟨w₀, hw₀, hsince.trans hguar.1, hread, hopen⟩

/-- The caller goes on with the record that it has written itself. -/
theorem meets_advance {bindingId inputId : String} {current : Versioned EventCandidate}
    {state : EventCandidateStatus} (hstate : ∀ decision, state ≠ .admitted decision) :
    (integrationSetting options).Meets p (HoldsOpen options bindingId inputId current)
      (putIntegration (k := .candidate bindingId inputId) current (current.value.withState state))
      (fun _ w ↦ (current.value.withState state).isSettled = false →
        HoldsOpen options bindingId inputId
          ⟨current.revision + 1, current.value.withState state⟩ w)
      fun _ _ ↦ True := by
  intro w hw ⟨w₀, hw₀, hsince₀, hread, hopen⟩
  have hput : (integrationSetting options).Meets p (IntegrationsSince w₀)
      (putIntegration (k := .candidate bindingId inputId) current (current.value.withState state))
      (fun _ w₁ ↦ IntegrationsSince w₀ w₁ ∧ ((current.value.withState state).isSettled = false →
        HoldsOpen options bindingId inputId
          ⟨current.revision + 1, current.value.withState state⟩ w₁))
      fun _ w₁ ↦ IntegrationsSince w₀ w₁ := by
    refine meets_commitWrites (since_kept w₀) fun w₁ st hw₁ hsince hcommit ↦ ?_
    obtain ⟨hrevision, hwritten, -⟩ := moved_put hcommit
    have hseen : w₁.records (.candidate bindingId inputId) = some current := by
      have hprecedes := hsince.precedes (.candidate bindingId inputId) (fun _ h ↦ nomatch h)
      rw [hread] at hprecedes
      exact (hprecedes.2 hrevision.symm).symm
    have hsteps := steps_of_moved (p := p) hw₁ hcommit fun write hwrite ↦ by
      obtain rfl := List.mem_singleton.mp hwrite
      exact moved_advance hseen hopen hwritten hstate
    exact ⟨hsteps, fun hnext ↦ ⟨_, hsteps.1, .refl _, hwritten, hnext⟩⟩
  exact (hput.conseq (fun _ _ h ↦ h) (fun _ _ _ h ↦ h.2) fun _ _ _ _ ↦ trivial) w hw hsince₀

theorem meets_decideCandidate {bindingId inputId : String} {current : Versioned EventCandidate}
    {now : ℕ} :
    (integrationSetting options).Meets p (HoldsOpen options bindingId inputId current)
      (decideCandidate options bindingId inputId current now)
      (fun decided w ↦ HoldsOpen options bindingId inputId decided.1 w) fun _ _ ↦ True := by
  refine Yields.seq holdsOpen_permanent yields_readIntegration fun marker _ ↦ ?_
  extract_lets obsolete
  refine Meets.bind (meets_advance fun _ h ↦ nomatch h) fun _ ↦ ?_
  let claimed : Versioned EventCandidate :=
    ⟨current.revision + 1, current.value.withState (.filtering (now + 90))⟩
  refine Meets.pre (P := HoldsOpen options bindingId inputId claimed) ?_ fun _ _ h ↦ h rfl
  refine Yields.seq holdsOpen_permanent yields_filter fun decision _ ↦ ?_
  have hdecided : (integrationSetting options).Meets p
      (HoldsOpen options bindingId inputId claimed)
      (putIntegration (k := .candidate bindingId inputId) claimed
        (claimed.value.withState (.decided decision)))
      (fun _ w ↦ (claimed.value.withState (.decided decision)).isSettled = false →
        HoldsOpen options bindingId inputId
          ⟨claimed.revision + 1, claimed.value.withState (.decided decision)⟩ w)
      fun _ _ ↦ True := meets_advance fun _ h ↦ nomatch h
  exact Meets.bind hdecided fun _ ↦ meets_ret fun _ _ h ↦ h rfl

theorem meets_latestOpen {bindingId inputId : String} {P : IntegrationWorld → Prop} :
    (integrationSetting options).Meets p P (latestOpen bindingId inputId)
      (fun latest w ↦ ∀ current, latest = some current →
        HoldsOpen options bindingId inputId current w) fun _ _ ↦ True := by
  have hread : (integrationSetting options).Meets p (fun _ ↦ True) (latestOpen bindingId inputId)
      (fun latest w ↦ ∀ current, latest = some current →
        HoldsOpen options bindingId inputId current w) fun _ _ ↦ True := by
    refine RecordSpec.meets_get stable_true fun w₀ hw₀ _ ↦ ?_
    refine meets_ret fun w₁ _ hsince current hcurrent ↦ ?_
    obtain ⟨hfound, hopen⟩ := Option.filter_eq_some_iff.mp hcurrent
    exact ⟨w₀, hw₀, hsince, hfound, by simpa using hopen⟩
  exact hread.pre fun _ _ _ ↦ trivial

theorem beside_candidateWrites {bindingId inputId : String} {current : Versioned EventCandidate}
    {decision : EventCandidateAudit} {marker : Slot ℕ} :
    Beside (candidateWrites bindingId inputId current decision marker) where
  nodup := by simp [candidateWrites]
  kinds write hwrite := by
    rcases List.mem_cons.mp hwrite with rfl | hwrite
    · exact .inl ⟨bindingId, inputId, rfl⟩
    · obtain rfl := List.mem_singleton.mp hwrite
      exact .inr ⟨_, _, rfl⟩

/-- A candidate is admitted while the marker is the one that was read, with the candidate's
version. -/
theorem movesWith_candidateWrites {bindingId inputId : String} {current : Versioned EventCandidate}
    {decision : EventCandidateAudit} (hheld : HoldsOpen options bindingId inputId current w)
    (hversion : markerVersion
      (w.records (.marker current.value.bindingId current.value.threadKey)) =
      current.value.explicitVersion) :
    MovesWith options w (candidateWrites bindingId inputId current decision
      (w.records (.marker current.value.bindingId current.value.threadKey))) := by
  intro w₁ st hw₁ hsince hadmits hwritten write hwrite
  obtain ⟨w₀, hw₀, hsince₀, hread, hopen⟩ := hheld
  obtain ⟨hbinding, -, -⟩ := hw₀.candidates bindingId inputId current hread
  unfold candidateWrites at hadmits hwritten hwrite
  have hcandidate := hwritten _ List.mem_cons_self
  have hmarker := hwritten _ (List.mem_cons_of_mem _ List.mem_cons_self)
  have hafter : threadVersion st bindingId current.value.threadKey =
      current.value.explicitVersion := by
    rw [threadVersion, ← hbinding, hmarker]
    rfl
  rcases List.mem_cons.mp hwrite with rfl | hlast
  · have hprecedes := (hsince₀.trans hsince).precedes (.candidate bindingId inputId)
      (fun _ h ↦ by contradiction)
    have hseen : w₁.records (.candidate bindingId inputId) = some current := by
      rw [hread] at hprecedes
      exact (hprecedes.2 (hadmits _ hwrite).symm).symm
    exact .advance current _ (.admitted decision) hseen hopen hcandidate rfl fun _ ↦ hafter
  · obtain rfl := List.mem_singleton.mp hlast
    have hprecedes := hsince.precedes (.marker current.value.bindingId current.value.threadKey)
      (fun _ h ↦ by contradiction)
    have hseen := hprecedes.2 (hadmits _ hwrite).symm
    refine ⟨by rw [hmarker]; rfl, ?_⟩
    rw [hbinding] at hseen hversion ⊢
    rw [hafter, threadVersion, ← hseen, hversion]

theorem runs_settleAttempts {bindingId inputId : String} {decision : EventCandidateAudit}
    (attempts : ℕ) (current : Versioned EventCandidate) :
    Runs options p (HoldsOpen options bindingId inputId current)
      (settleAttempts options bindingId inputId decision attempts current) := by
  induction attempts generalizing current with
  | zero => exact runs_throw
  | succ attempts ih =>
    refine RecordSpec.meets_get holdsOpen_permanent.stable fun w₀ hw₀ hheld ↦ ?_
    refine runs_seq yields_askIntegration fun now _ ↦ ?_
    extract_lets superseded
    have hlater : ∀ w, IntegrationsSince w₀ w → HoldsOpen options bindingId inputId current w := by
      intro w hsince
      obtain ⟨w₁, hw₁, hsince₁, hread⟩ := hheld
      exact ⟨w₁, hw₁, hsince₁.trans hsince, hread⟩
    split
    · unfold discard
      refine (meets_advance ?_).conseq (fun w _ hsince ↦ hlater w hsince) (fun _ _ _ _ ↦ trivial)
        fun _ _ _ _ ↦ trivial
      intro decision h
      cases h
    · next hgoes =>
      have hversion : markerVersion (w₀.records
          (.marker current.value.bindingId current.value.threadKey)) =
            current.value.explicitVersion := by
        by_contra hne
        exact hgoes (.inr (.inl (bne_iff_ne.mpr hne)))
      refine runs_catching (runs_bind (runs_accept beside_candidateWrites
        (movesWith_candidateWrites hheld hversion)) fun _ ↦ runs_pure) fun failure ↦ ?_
      split
      · refine Meets.bind meets_latestOpen fun latest ↦ ?_
        cases latest with
        | none => exact runs_pure
        | some latest => exact (ih latest).pre fun w _ h ↦ h latest rfl
      · exact runs_throw

theorem runs_process {bindingId inputId : String} :
    Runs options p (fun _ ↦ True) (process options bindingId inputId) := by
  refine runs_start fun w _ ↦ runs_read fun w₀ hw₀ _ ↦ ?_
  split
  · exact runs_pure
  · next current hcurrent =>
    split
    · exact runs_pure
    · next hsettled =>
      have hopen : current.value.isSettled = false := (Bool.not_eq_true _).mp hsettled
      have hheld : ∀ w, IntegrationsSince w₀ w → HoldsOpen options bindingId inputId current w :=
        fun w hsince ↦ ⟨w₀, hw₀, hsince, hcurrent, hopen⟩
      refine runs_seq yields_askIntegration fun now _ ↦ ?_
      split
      · exact runs_pure
      · exact runs_bind ((runs_settleAttempts 10 current).pre fun w _ h ↦ hheld w h) fun _ ↦
          runs_pure
      · refine Meets.bind (meets_decideCandidate.pre fun w _ h ↦ hheld w h) fun decided ↦ ?_
        exact runs_bind (runs_settleAttempts 10 decided.1) fun _ ↦ runs_pure

end EventCandidateService

/-! ## Every call -/

namespace WebhookIngressService

open EventCandidateService

theorem yields_earlier {wanted : Bool} {arrival : Arrival} :
    (integrationSetting options).Yields p (earlier wanted arrival) fun _ ↦ True := by
  unfold earlier
  split
  · exact yields_receipt
  · exact yields_ret trivial

theorem runs_receive {arrival : Arrival} {event : SourceEventFacts} :
    Runs options p (fun _ ↦ True) (receive options arrival event) := by
  refine runs_start fun w _ ↦ runs_seq yields_earlier fun previous _ ↦ ?_
  split
  · exact runs_pure
  · refine runs_seq yields_hasActiveSubscription fun subscribed _ ↦ ?_
    extract_lets policy accepts
    have hbound : options.policy arrival.bindingId = policy := rfl
    clear_value policy
    split
    · refine runs_seq yields_earlier fun previous _ ↦ ?_
      split <;> exact runs_pure
    · split
      · exact runs_pure
      · exact runs_map (.of_true (runs_enqueue hbound))
    · have haccepts : ∀ u, Runs options p (fun _ ↦ True) (accepts u) :=
        fun _ ↦ runs_map yields_accept
      split
      · exact runs_bind (.of_true (runs_recordAttempts 10)) haccepts
      · exact .of_true (haccepts ())

end WebhookIngressService

/-! ## Runs -/

/-- No records, and no history. -/
def freshIntegrations : IntegrationWorld := ⟨fun _ ↦ none, ⟨[], fun _ _ ↦ none⟩⟩

theorem kept_fresh (options : IntegrationOptions) :
    IntegrationsKept options freshIntegrations where
  numbered _ _ h := nomatch h
  subscribed _ _ _ h := nomatch h
  occurs _ h := absurd rfl h
  stored _ _ _ h := nomatch h
  counted _ _ :=
    ⟨[], List.nodup_nil, fun _ ↦ iff_of_false List.not_mem_nil fun h ↦ (nomatch h), rfl,
      fun _ _ _ _ ↦ Nat.zero_le _⟩
  candidates _ _ _ h := nomatch h
  created _ h := nomatch h
  submitted _ := ⟨fun _ h ↦ absurd h List.not_mem_nil, fun _ _ _ h ↦ (nomatch h),
    fun _ h ↦ absurd h List.not_mem_nil⟩
  answered _ _ _ h := nomatch h

theorem enqueueCall_runs {arrival : Arrival} :
    Runs options p (fun _ ↦ True) (enqueueCall options arrival) := by
  unfold enqueueCall
  split
  · exact runs_pure
  · next policy hpolicy => exact runs_map (EventCandidateService.runs_enqueue hpolicy)

theorem integrations_verified (options : IntegrationOptions) :
    (integrationSetting options).Verified freshIntegrations (fun _ _ _ ↦ True)
      fun _ _ _ ↦ True where
  init := kept_fresh options
  body := by
    rintro ⟨pid, call⟩
    refine Meets.pre (P := fun _ ↦ True) ?_ fun _ _ _ ↦ trivial
    cases call with
    | receive arrival event => exact runs_map WebhookIngressService.runs_receive
    | enqueue arrival => exact enqueueCall_runs
    | recordExplicit bindingId threadKey inputId =>
      exact EventCandidateService.runs_recordAttempts 10
    | process bindingId inputId => exact runs_map EventCandidateService.runs_process
    | accept arrival => exact runs_map yields_accept
    | release bindingId threadKey reason sessionId expectedEpoch => exact runs_releaseAttempts 10
    | submitPending id => exact runs_submitPending
    | deliverReady id => exact runs_deliverReady
    | events id key text => exact SessionService.runs_eventsAttempts 10
    | completeTurn id turnId status error items => exact SessionService.runs_completeTurn
    | cancelTurn id turnId => exact SessionService.runs_cancelTurn
    | deleteSession id => exact SessionService.runs_deleteSession
  post_stable _ _ := stable_true
  fail_stable _ _ := stable_true

end

end RatThings
