import Mathlib.Data.List.Perm.Subperm
import RatThings.Integrations.Filters

/-!
# Explicit requests

Filtered events neither displace nor repeat explicit requests, and an explicit request is answered
in its channel. Both are read off the invariant and the history of the calls.

`FilteredFairly` is about a run from some point on: no hour has more candidates than the cap, a
candidate is admitted only if no explicit request came into its thread since it was stored, and a
message that is seen again becomes neither a second input nor a candidate. `ExplicitAnswered` is
about the states: as long as the Turn of an explicit request that has ended is not answered, one of
its inputs is still to be processed, so that some delivery will find it.
-/

namespace RatThings

open Concurrent Service Setting

abbrev IntegrationConfig :=
  Config IntegrationWorld (RecordEffect IntegrationKey IntegrationValue IntegrationAsk)
    (RecordEffect.Answer IntegrationAsk.Answer) ServiceFailure Unit IntegrationCall

/-! ## Candidates and explicit requests -/

/-- What a run says about candidates from `c` on. -/
structure FilteredFairly (options : IntegrationOptions) (c : IntegrationConfig) : Prop where
  /-- The candidates of an hour that were stored below the cap are at most as many as the cap. -/
  capped : ∀ bindingId hour policy semantic, options.policy bindingId = some policy →
    policy.semantic = some semantic → ∀ inputIds : List String, inputIds.Nodup →
    (∀ inputId ∈ inputIds, c.state.ghost.uncapped bindingId inputId = some hour) →
    inputIds.length ≤ semantic.maxCandidatesPerHour
  /-- A candidate that is admitted stays as it is. -/
  admitted : ∀ c', Leads (integrationService options) .free c c' → ∀ bindingId inputId candidate,
    c.state.records (.candidate bindingId inputId) = some candidate →
    candidate.value.isAdmitted = true → ∃ candidate',
      c'.state.records (.candidate bindingId inputId) = some candidate' ∧
        candidate'.value = candidate.value
  /-- When a candidate is admitted, the explicit requests of its thread are those that were recorded
  when it was stored. -/
  fair : ∀ ev c₁, (integrationService options).step c ev = some c₁ → ∀ bindingId inputId,
    c.state.records (.candidate bindingId inputId) = none →
    (c₁.state.records (.candidate bindingId inputId)).isSome = true →
    ∀ c₂, Leads (integrationService options) .free c₁ c₂ →
    ∀ ev' c₃, (integrationService options).step c₂ ev' = some c₃ → ∀ candidate,
    c₃.state.records (.candidate bindingId inputId) = some candidate →
    candidate.value.isAdmitted = true →
    (∀ earlier, c₂.state.records (.candidate bindingId inputId) = some earlier →
      earlier.value.isAdmitted = false) →
    ∀ explicitId receipt, c₃.state.records (.explicit bindingId explicitId) = some receipt →
      receipt.value = candidate.value.threadKey →
      c₁.state.records (.explicit bindingId explicitId) = some receipt
  /-- An occurrence of a binding is at most one input of at most one Session. -/
  once : ∀ sessionId integration, c.state.records (.integration sessionId) = some integration →
    (integration.value.inputs.map (·.id)).Nodup ∧ ∃ bindingId key,
      sessionId = integrationSessionId bindingId key ∧ ∀ key' other,
        c.state.records (.integration (integrationSessionId bindingId key')) = some other →
        ∀ input ∈ integration.value.inputs, ∀ input' ∈ other.value.inputs, input.id = input'.id →
          integrationSessionId bindingId key' = sessionId

section

variable {options : IntegrationOptions} {c c' : IntegrationConfig}

theorem since_of_leads (hc : Reachable (integrationService options) .free freshIntegrations c)
    (h : Leads (integrationService options) .free c c') : IntegrationsSince c.state c'.state :=
  (integrations_verified options).future IntegrationsSince .refl .trans
    (fun _ _ _ _ hguar ↦ hguar.1) ((integrations_verified options).reachable hc) h

theorem admitsFairly_of_step (hc : Reachable (integrationService options) .free freshIntegrations c)
    {ev : Event IntegrationCall (RecordChoice IntegrationChoice)}
    (h : (integrationService options).step c ev = some c') : AdmitsFairly c.state c'.state := by
  rcases ((integrations_verified options).step ((integrations_verified options).reachable hc)
    (permits_free c ev) h).2 with hstate | ⟨q, e, hguar⟩
  · rw [hstate]
    exact (integrationSpec options).allowed_refl (0, .submitPending "") c.state
  · exact hguar.2

theorem isSettled_of_isAdmitted {candidate : EventCandidate} (h : candidate.isAdmitted = true) :
    candidate.isSettled = true := by
  unfold EventCandidate.isAdmitted at h
  unfold EventCandidate.isSettled
  split at h
  · next decision hstate => rw [hstate]
  · cases h

theorem once_of_kept {w : IntegrationWorld} (h : IntegrationsKept options w) {sessionId : String}
    {integration : Versioned SessionIntegrationState}
    (hintegration : w.records (.integration sessionId) = some integration) :
    (integration.value.inputs.map (·.id)).Nodup ∧ ∃ bindingId key,
      sessionId = integrationSessionId bindingId key ∧ ∀ key' other,
        w.records (.integration (integrationSessionId bindingId key')) = some other →
        ∀ input ∈ integration.value.inputs, ∀ input' ∈ other.value.inputs, input.id = input'.id →
          integrationSessionId bindingId key' = sessionId := by
  have hinputs : ∀ sessionId integration, w.records (.integration sessionId) = some integration →
      Occurs w.records sessionId integration.value.inputs := by
    intro sessionId integration hfound
    have hoccurs := h.occurs sessionId (by rw [hfound]; simp)
    rw [sessionInputs, hfound] at hoccurs
    exact hoccurs
  obtain ⟨hnodup, bindingId, key, hsession, hoccurs⟩ := hinputs sessionId integration hintegration
  refine ⟨hnodup, bindingId, key, hsession,
    fun key' other hother input hinput input' hinput' hid ↦ ?_⟩
  obtain ⟨-, bindingId', key'', hsession', hoccurs'⟩ := hinputs _ other hother
  obtain ⟨rfl, rfl⟩ := integrationSessionId_inj hsession'
  obtain ⟨occurrence, hoccurrence, hof⟩ := hoccurs input hinput
  obtain ⟨occurrence', hoccurrence', hof'⟩ := hoccurs' input' hinput'
  rw [hid, hoccurrence'] at hoccurrence
  obtain rfl := Option.some.inj hoccurrence
  exact hof'.symm.trans hof

/-- **Filtered events never displace or repeat explicit requests**, in every run. -/
theorem filtered_fairly (hc : Reachable (integrationService options) .free freshIntegrations c) :
    FilteredFairly options c := by
  have hkept : IntegrationsKept options c.state :=
    ((integrations_verified options).reachable hc).inv
  constructor
  · -- The inputs of an hour are among those that its counter has stored, which is capped.
    intro bindingId hour policy semantic hpolicy hsemantic inputIds hnodup hall
    obtain ⟨stored, -, hmem, -, hcap⟩ := hkept.counted bindingId hour
    have hsubset : inputIds ⊆ stored := fun inputId hin ↦ (hmem inputId).mpr (hall inputId hin)
    exact (List.subperm_of_subset hnodup hsubset).length_le.trans
      (hcap policy semantic hpolicy hsemantic)
  · intro c' hleads bindingId inputId candidate hcandidate hadmitted
    obtain ⟨next, hnext, -, -, hsettled⟩ :=
      (since_of_leads hc hleads).candidate bindingId inputId candidate hcandidate
    exact ⟨next, hnext, hsettled (isSettled_of_isAdmitted hadmitted)⟩
  · intro ev c₁ hstored bindingId inputId _ hsome c₂ hleads ev' c₃ hstep candidate hcandidate
      hadmitted hbefore explicitId receipt hreceipt hthread
    have hc₁ : Reachable (integrationService options) .free freshIntegrations c₁ :=
      .step hc (permits_free c ev) hstored
    have hc₂ := hc₁.trans hleads
    have hversion := admitsFairly_of_step hc₂ hstep bindingId inputId candidate hcandidate hadmitted
      hbefore
    -- The version was at least this when the candidate was stored, and only grows.
    have hsince := since_of_leads hc₁ (.step hleads (permits_free c₂ ev') hstep)
    obtain ⟨stored, hstoredRecord⟩ := Option.isSome_iff_exists.mp hsome
    have hle := (((integrations_verified options).reachable hc₁).inv.candidates bindingId inputId
      stored hstoredRecord).2.2
    obtain ⟨next, hnext, hkeyKept, hversionKept, -⟩ :=
      hsince.candidate bindingId inputId stored hstoredRecord
    obtain rfl := Option.some.inj (hnext.symm.trans hcandidate)
    rw [← hkeyKept, ← hversionKept] at hle
    have hexplicit := hsince.explicit bindingId next.value.threadKey
    have hequal : threadVersion c₁.state.records bindingId next.value.threadKey =
        threadVersion c₃.state.records bindingId next.value.threadKey :=
      le_antisymm hexplicit.1 (hversion.trans_le hle)
    exact hexplicit.2 hequal explicitId receipt hreceipt hthread
  · exact fun sessionId integration ↦ once_of_kept hkept

end

/-! ## Sample runs

Two candidates of one thread with explicit requests before and behind them: the first is admitted,
and the second is discarded for the request that came after it was stored. -/

def sampleIntegrationOptions : IntegrationOptions where
  policy _ := some ⟨.candidate, none, none, none, some ⟨["policy"], 2⟩⟩
  refuses _ _ := none
  filterModel := "model"
  redact _ text := text

def sampleArrival : SessionIntegrationService.Arrival where
  bindingId := "binding"
  threadKey := "thread"
  target := ⟨"agent", true, "environment", [], none, none, none⟩
  input := ⟨none, "input", "text", false, "context", none, false⟩

/-- A call, and what its requests are answered. -/
def answeredCall (pid : ℕ) (call : IntegrationCall) (count : ℕ) (x : IntegrationChoice) :
    List (Event IntegrationCall (RecordChoice IntegrationChoice)) :=
  .start pid call :: List.replicate count (.resume pid ⟨x, .acknowledged⟩)

def lateArrival : SessionIntegrationService.Arrival :=
  { sampleArrival with input := { sampleArrival.input with id := "late" } }

/-- A candidate is stored behind an explicit request, and admitted; another one is stored before the
next explicit request, and is not. -/
def sampleCandidate : List (Event IntegrationCall (RecordChoice IntegrationChoice)) :=
  answeredCall 0 (.recordExplicit "binding" "thread" "question") 3 {} ++
    answeredCall 1 (.enqueue sampleArrival) 7 {} ++
    answeredCall 2 (.process "binding" "input") 15 { act := true } ++
    answeredCall 3 (.enqueue lateArrival) 7 {} ++
    answeredCall 4 (.recordExplicit "binding" "thread" "again") 3 {} ++
    answeredCall 5 (.process "binding" "late") 8 { act := true }

/-- What a sample shows of its candidates, and whether its explicit requests are recorded. -/
def IntegrationWorld.sampleFacts (w : IntegrationWorld) :
    List (Option Bool) × List Bool :=
  (["input", "late"].map fun inputId ↦
      (w.records (.candidate "binding" inputId)).map (·.value.isAdmitted),
    ["question", "again"].map fun inputId ↦ (w.records (.explicit "binding" inputId)).isSome)

theorem sampleCandidate_fairly :
    ∃ c, (integrationService sampleIntegrationOptions).run .free sampleCandidate
        (.initial freshIntegrations) = some c ∧
      FilteredFairly sampleIntegrationOptions c ∧
      c.state.ghost.uncapped "binding" "input" = some 0 ∧
      c.state.ghost.uncapped "binding" "late" = some 0 ∧
      c.state.sampleFacts = ([some true, some false], [true, true]) := by
  have hrun : ((integrationService sampleIntegrationOptions).run .free sampleCandidate
      (.initial freshIntegrations)).map (fun c ↦ ((c.state.ghost.uncapped "binding" "input",
        c.state.ghost.uncapped "binding" "late"), c.state.sampleFacts)) =
      some ((some 0, some 0), [some true, some false], [true, true]) := by decide +kernel
  obtain ⟨c, hc, hfacts⟩ := Option.map_eq_some_iff.mp hrun
  obtain ⟨huncapped, hfacts⟩ := Prod.mk.inj hfacts
  obtain ⟨hinput, hlate⟩ := Prod.mk.inj huncapped
  exact ⟨c, hc, filtered_fairly (leads_of_run hc), hinput, hlate, hfacts⟩

/-! ## Answers

The Turn of the run at the end completes without a word. It is answered all the same, as one of its
inputs was asked for by name. -/

/-- A Turn of an explicit request that has ended is answered, or is still to be delivered. -/
def ExplicitAnswered (c : IntegrationConfig) : Prop :=
  ∀ sessionId session integration, c.state.records (.session sessionId) = some session →
    c.state.records (.integration sessionId) = some integration →
    ∀ turn ∈ session.value.turns, turn.status.isTerminal = true → turn.savedItems.isSome = true →
    (∃ input ∈ integration.value.inputs, input.turnId = some turn.id ∧
      input.admission ≠ some .candidate) →
    (∃ input ∈ integration.value.inputs, input.turnId = some turn.id ∧
      input.deliveryProcessed = false) ∨
    (sessionId, turn.id) ∈ c.state.ghost.delivered

/-- **An explicit request is always answered in its channel.** -/
theorem explicit_answered {options : IntegrationOptions} {c : IntegrationConfig}
    (hc : Reachable (integrationService options) .free freshIntegrations c) :
    ExplicitAnswered c := by
  intro sessionId session integration hsession hintegration turn _ _ _ hexplicit
  have hkept : IntegrationsKept options c.state :=
    ((integrations_verified options).reachable hc).inv
  by_cases hdelivered : (sessionId, turn.id) ∈ c.state.ghost.delivered
  · exact .inr hdelivered
  · have hanswered := hkept.answered sessionId session turn.id hsession hdelivered
    rw [sessionInputs, hintegration] at hanswered
    exact .inl (hanswered.2 hexplicit)

/-- A request is accepted and submitted, its Turn completes without a word, and is delivered. -/
def sampleRequest : List (Event IntegrationCall (RecordChoice IntegrationChoice)) :=
  answeredCall 0 (.accept sampleArrival) 6 {} ++
    answeredCall 1 (.submitPending (integrationSessionId "binding" "thread")) 14
      { text := "turn" } ++
    answeredCall 2 (.completeTurn (integrationSessionId "binding" "thread") "turn" .completed none
      (some [])) 2 {} ++
    answeredCall 3 (.deliverReady (integrationSessionId "binding" "thread")) 5 {}

theorem sampleRequest_answered :
    ∃ c, (integrationService sampleIntegrationOptions).run .free sampleRequest
        (.initial freshIntegrations) = some c ∧
      ExplicitAnswered c ∧
      c.state.ghost.delivered = [(integrationSessionId "binding" "thread", "turn")] := by
  have hrun : ((integrationService sampleIntegrationOptions).run .free sampleRequest
      (.initial freshIntegrations)).map (·.state.ghost.delivered) =
      some [(integrationSessionId "binding" "thread", "turn")] := by decide +kernel
  obtain ⟨c, hc, hdelivered⟩ := Option.map_eq_some_iff.mp hrun
  exact ⟨c, hc, explicit_answered (leads_of_run hc), hdelivered⟩

end RatThings
