import Mathlib.Data.List.Infix
import RatThings.Integrations.Moves

/-!
# The invariant of the integration records

What the moves of a commit preserve, kind by kind, and from it what a whole commit preserves.

The parts of the invariant relate records of different kinds, and a commit moves several of them. So
a part is proved from the moves of all kinds it speaks about: what an occurrence says from the move
of the occurrence and that of the inputs, what a count says from the move of the count and those of
the candidates. Records that a commit does not name stay, which is the move that leaves a record
alone.
-/

namespace RatThings

open Concurrent SessionIntegrationService

section

variable {options : IntegrationOptions} {w st : IntegrationStore}
  {delivered : List (String × String)} {sessionId : String}
  {inputs next : List SessionIntegrationReceipt}

/-! ## Inputs

Inputs are never removed, and what is assigned to one of them is not assigned again. -/

/-- The inputs of a change that only rewrites them. -/
theorem ids_map {change : SessionIntegrationReceipt → SessionIntegrationReceipt}
    (h : ∀ input, (change input).id = input.id) :
    (inputs.map change).map (·.id) = inputs.map (·.id) := by
  rw [List.map_map]
  exact List.map_congr_left fun input _ ↦ h input

theorem ids_promoteReceipt (inputId : String) (replay : Bool) :
    (promoteReceipt inputs inputId replay).map (·.id) = inputs.map (·.id) :=
  ids_map fun input ↦ by split <;> rfl

theorem ids_assignTurn (inputId turnId : String) :
    (assignTurn inputs inputId turnId).map (·.id) = inputs.map (·.id) :=
  ids_map fun input ↦ by split <;> rfl

theorem ids_processed (turnId : String) :
    (inputs.map fun receipt : SessionIntegrationReceipt ↦
      if receipt.turnId = some turnId then { receipt with deliveryProcessed := true }
      else receipt).map (·.id) = inputs.map (·.id) :=
  ids_map fun input ↦ by split <;> rfl

theorem InputsChange.ids_grow (h : InputsChange w st delivered sessionId inputs next) :
    inputs.map (·.id) <+: next.map (·.id) := by
  induction h with
  | same => exact List.prefix_refl _
  | append =>
    rw [List.map_append]
    exact List.prefix_append _ _
  | promote =>
    rw [ids_promoteReceipt]
  | assign =>
    rw [ids_assignTurn]
  | process =>
    rw [ids_processed]

/-- A change that rewrites the inputs keeps their occurrences. -/
theorem Occurs.of_ids (h : Occurs w sessionId inputs)
    (hids : next.map (·.id) = inputs.map (·.id)) : Occurs w sessionId next := by
  obtain ⟨hnodup, bindingId, key, hsession, hoccurs⟩ := h
  refine ⟨hids ▸ hnodup, bindingId, key, hsession, fun input hinput ↦ ?_⟩
  have hid : input.id ∈ inputs.map (·.id) := hids ▸ List.mem_map_of_mem hinput
  obtain ⟨earlier, hearlier, heq⟩ := List.mem_map.mp hid
  exact heq ▸ hoccurs earlier hearlier

theorem Occurs.mono (h : Occurs w sessionId inputs)
    (hkept : ∀ bindingId inputId occurrence, w (.occurrence bindingId inputId) = some occurrence →
      st (.occurrence bindingId inputId) = some occurrence) : Occurs st sessionId inputs := by
  obtain ⟨hnodup, bindingId, key, hsession, hoccurs⟩ := h
  refine ⟨hnodup, bindingId, key, hsession, fun input hinput ↦ ?_⟩
  obtain ⟨occurrence, hoccurrence, hof⟩ := hoccurs input hinput
  exact ⟨occurrence, hkept _ _ _ hoccurrence, hof⟩

theorem InputsChange.occurs (h : InputsChange w st delivered sessionId inputs next)
    (hkept : ∀ bindingId inputId occurrence, w (.occurrence bindingId inputId) = some occurrence →
      st (.occurrence bindingId inputId) = some occurrence)
    (ho : Occurs w sessionId inputs) : Occurs st sessionId next := by
  induction h with
  | same => exact ho.mono hkept
  | append bindingId key input digest occurrence hsession hnone hsome hof =>
    obtain ⟨hnodup, bindingId', key', hsession', hoccurs⟩ := ho
    obtain ⟨rfl, rfl⟩ := integrationSessionId_inj (hsession'.symm.trans hsession)
    have hfresh : input.id ∉ inputs.map (·.id) := by
      intro hid
      obtain ⟨earlier, hearlier, heq⟩ := List.mem_map.mp hid
      obtain ⟨found, hfound, -⟩ := hoccurs earlier hearlier
      rw [heq, hnone] at hfound
      cases hfound
    refine ⟨?_, bindingId', key', hsession', fun input' hinput' ↦ ?_⟩
    · rw [List.map_append]
      exact List.Nodup.append hnodup (List.nodup_singleton _)
        (List.disjoint_singleton.mpr hfresh)
    · rcases List.mem_append.mp hinput' with hold | hnew
      · obtain ⟨found, hfound, hof'⟩ := hoccurs input' hold
        exact ⟨found, hkept _ _ _ hfound, hof'⟩
      · obtain rfl := List.mem_singleton.mp hnew
        exact ⟨occurrence, hsome, hof⟩
  | promote inputId replay => exact (ho.of_ids (ids_promoteReceipt inputId replay)).mono hkept
  | assign index inputId turnId => exact (ho.of_ids (ids_assignTurn inputId turnId)).mono hkept
  | process turnId => exact (ho.of_ids (ids_processed turnId)).mono hkept

/-- The inputs of different positions differ. -/
theorem index_unique (hnodup : (inputs.map (·.id)).Nodup) {index index' : ℕ}
    {input : SessionIntegrationReceipt} (hindex : (inputs[index]?).map (·.id) = some input.id)
    (hindex' : inputs[index']? = some input) : index' = index := by
  have hfirst : (inputs.map (·.id))[index]? = some input.id := by
    rw [List.getElem?_map]
    exact hindex
  have hsecond : (inputs.map (·.id))[index']? = some input.id := by
    rw [List.getElem?_map, hindex']
    rfl
  have hlt : index' < (inputs.map (·.id)).length := (List.getElem?_eq_some_iff.mp hsecond).1
  exact (List.getElem?_inj hlt hnodup).mp (hsecond.trans hfirst.symm)

variable {created : Prop} {session : Slot IntegratedSession}

/-- A change that neither names a Turn nor processes an input without one. -/
theorem Submitted.of_map {change : SessionIntegrationReceipt → SessionIntegrationReceipt}
    (h : Submitted created inputs session)
    (hchange : ∀ input, (change input).id = input.id ∧ (change input).turnId = input.turnId ∧
      ((change input).deliveryProcessed = true →
        input.deliveryProcessed = true ∨ input.turnId.isSome = true)) :
    Submitted created (inputs.map change) session where
  created := by
    intro input hinput hturn
    obtain ⟨earlier, hearlier, rfl⟩ := List.mem_map.mp hinput
    rw [(hchange earlier).2.1] at hturn
    exact h.created earlier hearlier hturn
  receipts := by
    intro index input turnId hindex hturn
    rw [List.getElem?_map] at hindex
    obtain ⟨earlier, hearlier, rfl⟩ := Option.map_eq_some_iff.mp hindex
    rw [(hchange earlier).2.1] at hturn
    rw [(hchange earlier).1]
    exact h.receipts index earlier turnId hearlier hturn
  processed := by
    intro input hinput hprocessed
    obtain ⟨earlier, hearlier, rfl⟩ := List.mem_map.mp hinput
    rw [(hchange earlier).2.1]
    rcases (hchange earlier).2.2 hprocessed with hearlier' | hturn
    · exact h.processed earlier hearlier hearlier'
    · exact hturn

theorem InputsChange.submitted (h : InputsChange w st delivered sessionId inputs next)
    (hnodup : (inputs.map (·.id)).Nodup)
    (hs : Submitted (WasCreated w sessionId) inputs (w (.session sessionId))) :
    Submitted (WasCreated w sessionId) next (w (.session sessionId)) := by
  induction h with
  | same => exact hs
  | append bindingId key input digest occurrence =>
    refine ⟨fun input' hinput' hturn ↦ ?_, fun index input' turnId hindex hturn ↦ ?_,
      fun input' hinput' hprocessed ↦ ?_⟩
    · rcases List.mem_append.mp hinput' with hold | hnew
      · exact hs.created input' hold hturn
      · obtain rfl := List.mem_singleton.mp hnew
        cases hturn
    · rw [List.getElem?_append] at hindex
      split at hindex
      · exact hs.receipts index input' turnId hindex hturn
      · obtain rfl := List.mem_singleton.mp (List.mem_of_getElem? hindex)
        cases hturn
    · rcases List.mem_append.mp hinput' with hold | hnew
      · exact hs.processed input' hold hprocessed
      · obtain rfl := List.mem_singleton.mp hnew
        cases hprocessed
  | promote inputId replay =>
    refine hs.of_map fun input ↦ ?_
    split
    · exact ⟨rfl, rfl, fun hprocessed ↦ .inl (Bool.and_eq_true_iff.mp hprocessed).1⟩
    · exact ⟨rfl, rfl, .inl⟩
  | assign index inputId turnId hindex hcreated hreceipts =>
    refine ⟨fun _ _ _ ↦ hcreated, fun index' input' turnId' hindex' hturn ↦ ?_,
      fun input' hinput' hprocessed ↦ ?_⟩
    · rw [assignTurn, List.getElem?_map] at hindex'
      obtain ⟨earlier, hearlier, rfl⟩ := Option.map_eq_some_iff.mp hindex'
      by_cases hid : earlier.id = inputId
      · rw [if_pos hid] at hturn ⊢
        obtain rfl := Option.some.inj hturn
        -- No other input has the id.
        obtain rfl := index_unique hnodup (hid ▸ hindex) hearlier
        exact hid ▸ hreceipts
      · rw [if_neg hid] at hturn ⊢
        exact hs.receipts index' earlier turnId' hearlier hturn
    · obtain ⟨earlier, hearlier, rfl⟩ := List.mem_map.mp hinput'
      by_cases hid : earlier.id = inputId
      · rw [if_pos hid]
        rfl
      · rw [if_neg hid] at hprocessed ⊢
        exact hs.processed earlier hearlier hprocessed
  | process turnId =>
    refine hs.of_map fun input ↦ ?_
    split
    · next hturn => exact ⟨rfl, rfl, fun _ ↦ .inr (by rw [hturn]; rfl)⟩
    · exact ⟨rfl, rfl, .inl⟩

/-! ## Answers

The part that needs most: an input is marked as processed together with the others of its Turn, or
the Turn was quiet. -/

/-- A rewritten input that is not processed. -/
theorem open_map {change : SessionIntegrationReceipt → SessionIntegrationReceipt}
    {input : SessionIntegrationReceipt} {turnId : String} (hinput : input ∈ inputs)
    (hturn : (change input).turnId = some turnId)
    (hopen : (change input).deliveryProcessed = false) :
    ∃ input ∈ inputs.map change, input.turnId = some turnId ∧ input.deliveryProcessed = false :=
  ⟨change input, List.mem_map_of_mem hinput, hturn, hopen⟩

theorem answered_promoted {inputId : String} {replay : Bool}
    (hreplay : ∀ input ∈ inputs, ∀ turnId found, input.id = inputId →
      input.turnId = some turnId → input.deliveryProcessed = true → session = some found →
      (sessionId, turnId) ∉ delivered →
      (∀ other ∈ inputs, other.turnId = some turnId → other.admission = some .candidate) →
        replay = true)
    (ha : Answered sessionId inputs session delivered) :
    Answered sessionId (promoteReceipt inputs inputId replay) session delivered := by
  intro found turnId hfound hnot
  obtain ⟨hquiet, hopen⟩ := ha found turnId hfound hnot
  refine ⟨fun input hinput hturn hprocessed ↦ ?_, fun ⟨input, hinput, hturn, hexplicit⟩ ↦ ?_⟩
  · obtain ⟨earlier, hearlier, rfl⟩ := List.mem_map.mp hinput
    by_cases hid : earlier.id = inputId
    · rw [if_pos hid] at hturn hprocessed
      exact hquiet earlier hearlier hturn (Bool.and_eq_true_iff.mp hprocessed).1
    · rw [if_neg hid] at hturn hprocessed
      exact hquiet earlier hearlier hturn hprocessed
  · obtain ⟨earlier, hearlier, rfl⟩ := List.mem_map.mp hinput
    by_cases hbefore : ∃ input ∈ inputs, input.turnId = some turnId ∧
        input.admission ≠ some .candidate
    · obtain ⟨pending, hpending, hof, hunprocessed⟩ := hopen hbefore
      refine open_map hpending ?_ ?_
      · split <;> exact hof
      · split
        · rw [hunprocessed]
          rfl
        · exact hunprocessed
    · -- The promoted input is the first one of its Turn that is no candidate.
      have hcandidates : ∀ other ∈ inputs, other.turnId = some turnId →
          other.admission = some .candidate := by
        intro other hother hof
        by_contra hadmission
        exact hbefore ⟨other, hother, hof, hadmission⟩
      by_cases hid : earlier.id = inputId
      · rw [if_pos hid] at hturn
        refine open_map hearlier (by rw [if_pos hid]; exact hturn) ?_
        rw [if_pos hid]
        cases hprocessed : earlier.deliveryProcessed with
        | false => rfl
        | true =>
          rw [hreplay earlier hearlier turnId found hid hturn hprocessed hfound hnot hcandidates]
          rfl
      · rw [if_neg hid] at hturn hexplicit
        exact absurd (hcandidates earlier hearlier hturn) hexplicit

theorem answered_assigned {index : ℕ} {inputId turn : String}
    (hindex : (inputs[index]?).map (·.id) = some inputId)
    (hreceipts : ∀ found, session = some found →
      (found.value.receipts.lookup (submissionKey index inputId)).map (·.turnId) = some turn)
    (hnodup : (inputs.map (·.id)).Nodup) (hs : Submitted created inputs session)
    (ha : Answered sessionId inputs session delivered) :
    Answered sessionId (assignTurn inputs inputId turn) session delivered := by
  intro found turnId hfound hnot
  obtain ⟨hquiet, hopen⟩ := ha found turnId hfound hnot
  -- An input that has a Turn already is given the same one.
  have hsame : ∀ input ∈ inputs, input.id = inputId → ∀ turnId, input.turnId = some turnId →
      turnId = turn := by
    intro input hinput hid turnId hturn
    obtain ⟨index', hindex'⟩ := List.getElem?_of_mem hinput
    obtain rfl := index_unique hnodup (hid ▸ hindex) hindex'
    have hreceipt := hs.receipts index' input turnId hindex' hturn found hfound
    rw [hid, hreceipts found hfound] at hreceipt
    exact (Option.some.inj hreceipt).symm
  have hkept : ∀ input ∈ inputs, input.turnId = some turnId →
      (if input.id = inputId then { input with turnId := some turn } else input).turnId =
        some turnId := by
    intro input hinput hturn
    split
    · next hid => rw [hsame input hinput hid turnId hturn]
    · exact hturn
  refine ⟨fun input hinput hturn hprocessed ↦ ?_, fun ⟨input, hinput, hturn, hexplicit⟩ ↦ ?_⟩
  · obtain ⟨earlier, hearlier, rfl⟩ := List.mem_map.mp hinput
    by_cases hid : earlier.id = inputId
    · rw [if_pos hid] at hturn hprocessed
      obtain ⟨turnId', hturn'⟩ :=
        Option.isSome_iff_exists.mp (hs.processed earlier hearlier hprocessed)
      have heq : turnId' = turnId :=
        (hsame earlier hearlier hid turnId' hturn').trans (Option.some.inj hturn)
      exact hquiet earlier hearlier (heq ▸ hturn') hprocessed
    · rw [if_neg hid] at hturn hprocessed
      exact hquiet earlier hearlier hturn hprocessed
  · obtain ⟨earlier, hearlier, rfl⟩ := List.mem_map.mp hinput
    have hadmission : earlier.admission ≠ some .candidate := by
      split at hexplicit <;> exact hexplicit
    have hprior : earlier.turnId = some turnId ∨ earlier.turnId = none := by
      by_cases hid : earlier.id = inputId
      · rw [if_pos hid] at hturn
        cases hearlierTurn : earlier.turnId with
        | none => exact .inr rfl
        | some turnId' =>
          rw [hsame earlier hearlier hid turnId' hearlierTurn]
          exact .inl hturn
      · rw [if_neg hid] at hturn
        exact .inl hturn
    rcases hprior with hprior | hprior
    · obtain ⟨pending, hpending, hof, hunprocessed⟩ := hopen ⟨earlier, hearlier, hprior, hadmission⟩
      refine open_map hpending (hkept pending hpending hof) ?_
      split <;> exact hunprocessed
    · refine open_map hearlier hturn ?_
      have hunprocessed : earlier.deliveryProcessed = false := by
        cases hprocessed : earlier.deliveryProcessed with
        | false => rfl
        | true => exact absurd (hprior ▸ hs.processed earlier hearlier hprocessed) (by simp)
      split <;> exact hunprocessed

theorem answered_processed {turn : String}
    (hturn : (sessionId, turn) ∈ delivered ∨
      (∀ input ∈ inputs, input.turnId = some turn → input.admission = some .candidate) ∧
        ∀ found, session = some found → found.value.Quiet turn)
    (ha : Answered sessionId inputs session delivered) :
    Answered sessionId (inputs.map fun receipt ↦
      if receipt.turnId = some turn then { receipt with deliveryProcessed := true }
      else receipt) session delivered := by
  intro found turnId hfound hnot
  obtain ⟨hquiet, hopen⟩ := ha found turnId hfound hnot
  refine ⟨fun input hinput hof hprocessed ↦ ?_, fun ⟨input, hinput, hof, hexplicit⟩ ↦ ?_⟩
  · obtain ⟨earlier, hearlier, rfl⟩ := List.mem_map.mp hinput
    by_cases hmarked : earlier.turnId = some turn
    · rw [if_pos hmarked] at hof
      obtain rfl := Option.some.inj (hmarked.symm.trans hof)
      exact (hturn.resolve_left hnot).2 found hfound
    · rw [if_neg hmarked] at hof hprocessed
      exact hquiet earlier hearlier hof hprocessed
  · obtain ⟨earlier, hearlier, rfl⟩ := List.mem_map.mp hinput
    have hearlierOf : earlier.turnId = some turnId := by
      split at hof <;> exact hof
    have hadmission : earlier.admission ≠ some .candidate := by
      split at hexplicit <;> exact hexplicit
    obtain ⟨pending, hpending, hpendingOf, hunprocessed⟩ :=
      hopen ⟨earlier, hearlier, hearlierOf, hadmission⟩
    have hother : turnId ≠ turn := by
      rintro rfl
      exact hadmission ((hturn.resolve_left hnot).1 earlier hearlier hearlierOf)
    have hkept : pending.turnId ≠ some turn := fun h ↦
      hother (Option.some.inj (hpendingOf.symm.trans h))
    refine open_map hpending ?_ ?_
    · rw [if_neg hkept]
      exact hpendingOf
    · rw [if_neg hkept]
      exact hunprocessed

/-- **The step lemma** for the inputs of a Session. -/
theorem InputsChange.answered (h : InputsChange w st delivered sessionId inputs next)
    (hnodup : (inputs.map (·.id)).Nodup)
    (hs : Submitted (WasCreated w sessionId) inputs (w (.session sessionId)))
    (ha : Answered sessionId inputs (w (.session sessionId)) delivered) :
    Answered sessionId next (w (.session sessionId)) delivered := by
  induction h with
  | same => exact ha
  | append bindingId key input digest occurrence =>
    intro found turnId hfound hnot
    obtain ⟨hquiet, hopen⟩ := ha found turnId hfound hnot
    refine ⟨fun input' hinput' hturn hprocessed ↦ ?_, fun ⟨input', hinput', hturn, hexplicit⟩ ↦ ?_⟩
    · rcases List.mem_append.mp hinput' with hold | hnew
      · exact hquiet input' hold hturn hprocessed
      · obtain rfl := List.mem_singleton.mp hnew
        cases hturn
    · rcases List.mem_append.mp hinput' with hold | hnew
      · obtain ⟨pending, hpending, hof⟩ := hopen ⟨input', hold, hturn, hexplicit⟩
        exact ⟨pending, List.mem_append_left _ hpending, hof⟩
      · obtain rfl := List.mem_singleton.mp hnew
        cases hturn
  | promote inputId replay hreplay => exact answered_promoted hreplay ha
  | assign index inputId turnId hindex _ hreceipts =>
    exact answered_assigned hindex hreceipts hnodup hs ha
  | process turnId hturn => exact answered_processed hturn ha

theorem nodup_sessionInputs (ho : w (.integration sessionId) ≠ none →
      Occurs w sessionId (sessionInputs w sessionId)) :
    ((sessionInputs w sessionId).map (·.id)).Nodup := by
  by_cases hw : w (.integration sessionId) = none
  · rw [sessionInputs, hw]
    exact List.nodup_nil
  · exact (ho hw).1

/-! ## Sessions -/

variable (hmoved : ∀ k, st k = w k ∨ Moved options delivered w st k)
include hmoved

theorem wasCreated_of_moved (h : WasCreated w sessionId) : WasCreated st sessionId := by
  obtain ⟨preparation, hpreparation, hcreated⟩ := h
  rcases hmoved (.preparation sessionId) with hsame | ⟨next, hnext, hkept⟩
  · exact ⟨preparation, hsame.trans hpreparation, hcreated⟩
  · exact ⟨next, hnext, hkept ⟨preparation, hpreparation, hcreated⟩⟩

theorem sessionKept_of_moved (hcreated : ∀ sessionId, (w (.session sessionId)).isSome = true →
      WasCreated w sessionId)
    (hprecedes : ∀ k, (st k).isSome = true → (w k).Precedes (st k)) (sessionId : String) :
    SessionKept w st sessionId := by
  refine ⟨wasCreated_of_moved hmoved, fun hwas hnone ↦ ?_, fun session hsession ↦ ?_⟩
  · rcases hmoved (.session sessionId) with
      hsame | ⟨_, hnever, -, -, -⟩ | ⟨_, _, hsome, -, -⟩ | ⟨_, hsome, -⟩
    · exact hsame.trans hnone
    · exact absurd hwas hnever
    · exact nomatch hnone.symm.trans hsome
    · exact nomatch hnone.symm.trans hsome
  · have hwas : WasCreated w sessionId := hcreated sessionId (by rw [hsession]; rfl)
    rcases hmoved (.session sessionId) with
      hsame | ⟨_, hnever, -, -, -⟩ | ⟨earlier, next, hsome, hnext, hgrown⟩ | ⟨_, -, hnone⟩
    · exact .inl ⟨session, hsame.trans hsession, .refl _, .refl _⟩
    · exact absurd hwas hnever
    · obtain rfl := Option.some.inj (hsession.symm.trans hsome)
      have hlater := hprecedes (.session sessionId) (by rw [hnext]; rfl)
      rw [hsession, hnext] at hlater
      exact .inl ⟨next, hnext, hlater, hgrown⟩
    · exact .inr ⟨hnone, wasCreated_of_moved hmoved hwas⟩

/-- Inputs whose Turns were given before the Session changed. -/
theorem submitted_of_moved {inputs : List SessionIntegrationReceipt}
    (hs : Submitted (WasCreated w sessionId) inputs (w (.session sessionId))) :
    Submitted (WasCreated st sessionId) inputs (st (.session sessionId)) := by
  refine ⟨fun input hinput hturn ↦ wasCreated_of_moved hmoved (hs.created input hinput hturn),
    fun index input turnId hindex hturn found hfound ↦ ?_, hs.processed⟩
  have hwas : WasCreated w sessionId :=
    hs.created input (List.mem_of_getElem? hindex) (by rw [hturn]; rfl)
  rcases hmoved (.session sessionId) with
    hsame | ⟨_, hnever, -, -, -⟩ | ⟨earlier, next, hsome, hnext, hgrown⟩ | ⟨_, -, hnone⟩
  · exact hs.receipts index input turnId hindex hturn found (hsame.symm.trans hfound)
  · exact absurd hwas hnever
  · obtain rfl := Option.some.inj (hnext.symm.trans hfound)
    obtain ⟨receipt, hreceipt, hof⟩ :=
      Option.map_eq_some_iff.mp (hs.receipts index input turnId hindex hturn earlier hsome)
    rw [hgrown.receipts _ _ hreceipt]
    exact congrArg some hof
  · exact nomatch hnone.symm.trans hfound

theorem answered_of_moved {inputs : List SessionIntegrationReceipt}
    (hs : Submitted (WasCreated w sessionId) inputs (w (.session sessionId)))
    (ha : Answered sessionId inputs (w (.session sessionId)) delivered) :
    Answered sessionId inputs (st (.session sessionId)) delivered := by
  intro found turnId hfound hnot
  rcases hmoved (.session sessionId) with
    hsame | ⟨_, hnever, -, -, -⟩ | ⟨earlier, next, hsome, hnext, hgrown⟩ | ⟨_, -, hnone⟩
  · exact ha found turnId (hsame.symm.trans hfound) hnot
  · -- No input has a Turn before the Session is created.
    have hnone : ∀ input ∈ inputs, input.turnId ≠ some turnId := by
      intro input hinput hturn
      exact hnever (hs.created input hinput (by rw [hturn]; rfl))
    exact ⟨fun input hinput hturn ↦ absurd hturn (hnone input hinput),
      fun ⟨input, hinput, hturn, _⟩ ↦ absurd hturn (hnone input hinput)⟩
  · obtain rfl := Option.some.inj (hnext.symm.trans hfound)
    obtain ⟨hquiet, hopen⟩ := ha earlier turnId hsome hnot
    exact ⟨fun input hinput hturn hprocessed ↦ hgrown.quiet (hquiet input hinput hturn hprocessed),
      hopen⟩
  · exact nomatch hnone.symm.trans hfound

/-! ## Threads -/

theorem occurrence_of_moved {bindingId inputId : String}
    {occurrence : Versioned IntegrationOccurrence}
    (h : w (.occurrence bindingId inputId) = some occurrence) :
    st (.occurrence bindingId inputId) = some occurrence := by
  rcases hmoved (.occurrence bindingId inputId) with hsame | ⟨hnone, -⟩
  · exact hsame.trans h
  · exact nomatch hnone.symm.trans h

theorem threadVersion_of_moved (bindingId threadKey : String) :
    threadVersion w bindingId threadKey ≤ threadVersion st bindingId threadKey := by
  rcases hmoved (.marker bindingId threadKey) with hsame | ⟨-, hle⟩
  · rw [threadVersion, threadVersion, hsame]
  · exact hle

theorem explicitSince_of_moved (bindingId threadKey : String) :
    ExplicitSince w st bindingId threadKey := by
  refine ⟨threadVersion_of_moved hmoved bindingId threadKey,
    fun heq inputId receipt hreceipt hthread ↦ ?_⟩
  rcases hmoved (.explicit bindingId inputId) with hsame | ⟨-, receipt', hreceipt', hraised⟩
  · exact hsame.symm.trans hreceipt
  · obtain rfl := Option.some.inj (hreceipt'.symm.trans hreceipt)
    rw [hthread] at hraised
    exact absurd heq hraised.ne

theorem inputsChange_of_moved (sessionId : String) :
    InputsChange w st delivered sessionId (sessionInputs w sessionId)
      (sessionInputs st sessionId) := by
  rcases hmoved (.integration sessionId) with hsame | ⟨-, -, hchange⟩
  · have heq : sessionInputs st sessionId = sessionInputs w sessionId := by
      rw [sessionInputs, sessionInputs, hsame]
    rw [heq]
    exact .same
  · exact hchange

theorem occurs_of_moved (ho : w (.integration sessionId) ≠ none →
      Occurs w sessionId (sessionInputs w sessionId))
    (hst : st (.integration sessionId) ≠ none) :
    Occurs st sessionId (sessionInputs st sessionId) := by
  have hchange := inputsChange_of_moved hmoved sessionId
  have hkept : ∀ bindingId inputId occurrence, w (.occurrence bindingId inputId) = some occurrence →
      st (.occurrence bindingId inputId) = some occurrence := fun _ _ _ h ↦
    occurrence_of_moved hmoved h
  by_cases hw : w (.integration sessionId) = none
  · rcases hmoved (.integration sessionId) with hsame | ⟨-, hnamed, -⟩
    · exact absurd (hsame.trans hw) hst
    · obtain ⟨bindingId, key, hsession⟩ := hnamed hw
      have hempty : sessionInputs w sessionId = [] := by
        rw [sessionInputs, hw]
        rfl
      rw [hempty] at hchange
      exact hchange.occurs hkept ⟨List.nodup_nil, bindingId, key, hsession, fun input hinput ↦
        absurd hinput List.not_mem_nil⟩
  · exact hchange.occurs hkept (ho hw)

/-! ## Candidates

What is fixed stays fixed, and the counts go up with the candidates that are stored below the
cap. -/

theorem candidate_of_moved {bindingId inputId : String} {candidate : Versioned EventCandidate}
    (h : w (.candidate bindingId inputId) = some candidate) :
    ∃ next, st (.candidate bindingId inputId) = some next ∧ candidate.value.Kept next.value := by
  rcases hmoved (.candidate bindingId inputId) with
    hsame | ⟨_, hnone, -, -, -, -, -, -⟩ | ⟨earlier, next, state, hearlier, hopen, hnext, hvalue, -⟩
  · exact ⟨candidate, hsame.trans h, rfl, rfl, fun _ ↦ rfl⟩
  · exact nomatch hnone.symm.trans h
  · obtain rfl := Option.some.inj (hearlier.symm.trans h)
    refine ⟨next, hnext, ?_⟩
    rw [hvalue]
    exact ⟨rfl, rfl, fun hsettled ↦ absurd hsettled (by rw [hopen]; decide)⟩

theorem candidates_of_moved (hcandidates : ∀ bindingId inputId candidate,
      w (.candidate bindingId inputId) = some candidate →
        candidate.value.bindingId = bindingId ∧ candidate.value.input.id = inputId ∧
          candidate.value.explicitVersion ≤ threadVersion w bindingId candidate.value.threadKey)
    {bindingId inputId : String} {candidate : Versioned EventCandidate}
    (h : st (.candidate bindingId inputId) = some candidate) :
    candidate.value.bindingId = bindingId ∧ candidate.value.input.id = inputId ∧
      candidate.value.explicitVersion ≤ threadVersion st bindingId candidate.value.threadKey := by
  have hversion := threadVersion_of_moved hmoved bindingId candidate.value.threadKey
  rcases hmoved (.candidate bindingId inputId) with hsame |
    ⟨stored, -, hstored, hbinding, hid, hle, -, -⟩ | ⟨earlier, next, state, hearlier, -, hnext,
      hvalue, -⟩
  · obtain ⟨hbinding, hid, hle⟩ := hcandidates bindingId inputId candidate (hsame.symm.trans h)
    exact ⟨hbinding, hid, hle.trans hversion⟩
  · obtain rfl := Option.some.inj (hstored.symm.trans h)
    exact ⟨hbinding, hid, hle.trans hversion⟩
  · obtain rfl := Option.some.inj (hnext.symm.trans h)
    obtain ⟨hbinding, hid, hle⟩ := hcandidates bindingId inputId earlier hearlier
    rw [hvalue] at hversion ⊢
    exact ⟨hbinding, hid, hle.trans hversion⟩

theorem admits_of_moved {bindingId inputId : String} {candidate : Versioned EventCandidate}
    (h : st (.candidate bindingId inputId) = some candidate)
    (hadmitted : candidate.value.isAdmitted = true)
    (hearlier : ∀ earlier, w (.candidate bindingId inputId) = some earlier →
      earlier.value.isAdmitted = false) :
    threadVersion st bindingId candidate.value.threadKey = candidate.value.explicitVersion := by
  rcases hmoved (.candidate bindingId inputId) with hsame |
    ⟨stored, -, hstored, -, -, -, hpending, -⟩ | ⟨earlier, next, state, -, -, hnext, hvalue, hfair⟩
  · exact absurd hadmitted (by rw [hearlier candidate (hsame.symm.trans h)]; decide)
  · obtain rfl := Option.some.inj (hstored.symm.trans h)
    exact absurd hadmitted (by rw [hpending]; decide)
  · obtain rfl := Option.some.inj (hnext.symm.trans h)
    have hequal := hfair hadmitted
    rw [hvalue]
    exact hequal

/-- The candidate appears, to be filtered. -/
theorem hourCount_of_stored {bindingId inputId : String} {candidate : Versioned EventCandidate}
    (hnone : w (.candidate bindingId inputId) = none)
    (hsome : st (.candidate bindingId inputId) = some candidate)
    (hpending : candidate.value.state = .pending) :
    hourCount st bindingId (candidate.value.createdAt / 3600) =
      hourCount w bindingId (candidate.value.createdAt / 3600) + 1 := by
  rcases hmoved (.candidate bindingId inputId) with hsame |
    ⟨stored, -, hstored, -, -, -, -, hcount⟩ | ⟨earlier, -, -, hearlier, -, -, -, -⟩
  · exact nomatch (hsame.trans hnone).symm.trans hsome
  · obtain rfl := Option.some.inj (hstored.symm.trans hsome)
    exact hcount hpending
  · exact nomatch hnone.symm.trans hearlier

section

variable (pid : ℕ) {g : IntegrationGhost} {bindingId : String}

omit hmoved in
theorem uncapped_of_same {inputId : String}
    (h : st (.candidate bindingId inputId) = w (.candidate bindingId inputId)) :
    (observeCandidates pid w st g).uncapped bindingId inputId = g.uncapped bindingId inputId := by
  simp only [observeCandidates, h]
  cases w (.candidate bindingId inputId) <;> rfl

omit hmoved in
theorem uncapped_of_stored {inputId : String} {candidate : Versioned EventCandidate}
    (hnone : w (.candidate bindingId inputId) = none)
    (hsome : st (.candidate bindingId inputId) = some candidate)
    (hpending : candidate.value.state = .pending) :
    (observeCandidates pid w st g).uncapped bindingId inputId =
      some (candidate.value.createdAt / 3600) := by
  simp only [observeCandidates, hnone, hsome, hpending, if_true]

omit hmoved in
/-- Where a candidate does not appear to be filtered, nothing is added. -/
theorem uncapped_cases (w st : IntegrationStore) (g : IntegrationGhost)
    (bindingId inputId : String) :
    (∃ candidate, w (.candidate bindingId inputId) = none ∧
      st (.candidate bindingId inputId) = some candidate ∧ candidate.value.state = .pending) ∨
    (observeCandidates pid w st g).uncapped bindingId inputId = g.uncapped bindingId inputId := by
  simp only [observeCandidates]
  split
  · next stored hnone hsome =>
    by_cases hpending : stored.value.state = .pending
    · exact .inl ⟨stored, hnone, hsome, hpending⟩
    · exact .inr (if_neg hpending)
  · exact .inr rfl

theorem stored_of_moved (hstored : ∀ inputId hour, g.uncapped bindingId inputId = some hour →
      (w (.candidate bindingId inputId)).isSome = true) {inputId : String} {hour : ℕ}
    (h : (observeCandidates pid w st g).uncapped bindingId inputId = some hour) :
    (st (.candidate bindingId inputId)).isSome = true := by
  rcases uncapped_cases pid w st g bindingId inputId with ⟨candidate, -, hsome, -⟩ | hsame
  · rw [hsome]
    rfl
  · obtain ⟨candidate, hcandidate⟩ := Option.isSome_iff_exists.mp (hstored inputId hour (hsame ▸ h))
    obtain ⟨next, hnext, -⟩ := candidate_of_moved hmoved hcandidate
    rw [hnext]
    rfl

/-- **The step lemma** for the hourly counts. -/
theorem counted_of_moved {hour : ℕ}
    (hstored : ∀ inputId hour, g.uncapped bindingId inputId = some hour →
      (w (.candidate bindingId inputId)).isSome = true)
    (hcounted : Counted options ⟨w, g⟩ bindingId hour) :
    Counted options ⟨st, observeCandidates pid w st g⟩ bindingId hour := by
  obtain ⟨stored, hnodup, hmem, hlength, hcap⟩ := hcounted
  have hfresh : ∀ inputId, w (.candidate bindingId inputId) = none →
      g.uncapped bindingId inputId ≠ some hour := by
    intro inputId hnone huncapped
    have hsome := hstored inputId hour huncapped
    rw [hnone] at hsome
    cases hsome
  rcases hmoved (.limit bindingId hour) with
    hsame | ⟨-, added, candidate, hnone, hsome, hpending, hhour, hcount, hbelow, hothers⟩
  · have hequal : hourCount st bindingId hour = hourCount w bindingId hour := by
      rw [hourCount, hourCount, hsame]
    refine ⟨stored, hnodup, fun inputId ↦ (hmem inputId).trans ?_, hlength.trans hequal.symm, hcap⟩
    rcases uncapped_cases pid w st g bindingId inputId with
      ⟨candidate, hnone, hsome, hpending⟩ | hkept
    · -- A candidate that counts would have raised this count.
      rw [uncapped_of_stored pid hnone hsome hpending]
      have hcount := hourCount_of_stored hmoved hnone hsome hpending
      have hother : candidate.value.createdAt / 3600 ≠ hour := by
        intro hhour
        rw [hhour, hequal] at hcount
        omega
      exact iff_of_false (hfresh inputId hnone) fun h ↦ hother (Option.some.inj h)
    · show g.uncapped bindingId inputId = some hour ↔ _
      rw [hkept]
  · have hnew : added ∉ stored := fun h ↦ hfresh added hnone ((hmem added).mp h)
    refine ⟨added :: stored, List.nodup_cons.mpr ⟨hnew, hnodup⟩, fun inputId ↦ ?_, ?_, ?_⟩
    · by_cases heq : inputId = added
      · subst heq
        rw [uncapped_of_stored pid hnone hsome hpending, hhour]
        exact iff_of_true List.mem_cons_self rfl
      · rw [uncapped_of_same pid (hothers inputId heq), List.mem_cons]
        exact (or_iff_right heq).trans (hmem inputId)
    · rw [List.length_cons, hlength, hcount]
    · intro policy semantic hpolicy hsemantic
      have hlt := hbelow policy semantic hpolicy hsemantic
      rw [List.length_cons, hlength]
      exact hlt

end

end

/-! ## Whole commits -/

section

variable {options : IntegrationOptions} {w : IntegrationWorld} {st : IntegrationStore}

/-- **What a commit of such moves preserves.** -/
theorem kept_of_moved (pid : ℕ) (h : IntegrationsKept options w) (hnumbered : st.Numbered)
    (hmoved : ∀ k, st k = w.records k ∨ Moved options w.ghost.delivered w.records st k) :
    IntegrationsKept options ⟨st, observeCandidates pid w.records st w.ghost⟩ where
  numbered := hnumbered
  subscribed bindingId threadKey subscription hsubscription := by
    rcases hmoved (.subscription bindingId threadKey) with hsame | ⟨next, hnext, hof⟩
    · exact h.subscribed bindingId threadKey subscription (hsame.symm.trans hsubscription)
    · exact Option.some.inj (hnext.symm.trans hsubscription) ▸ hof
  occurs sessionId := occurs_of_moved hmoved (h.occurs sessionId)
  stored bindingId _ _ huncapped := stored_of_moved hmoved pid (h.stored bindingId) huncapped
  counted bindingId hour := counted_of_moved hmoved pid (h.stored bindingId)
    (h.counted bindingId hour)
  candidates bindingId inputId candidate := candidates_of_moved hmoved h.candidates
  created sessionId hsome := by
    rcases hmoved (.session sessionId) with
      hsame | ⟨_, -, hcreated, -, -⟩ | ⟨earlier, _, hearlier, -, -⟩ | ⟨_, -, hnone⟩
    · have hbefore : (w.records (.session sessionId)).isSome = true := by
        rw [← hsame]
        exact hsome
      exact wasCreated_of_moved hmoved (h.created sessionId hbefore)
    · exact hcreated
    · exact wasCreated_of_moved hmoved (h.created sessionId (by rw [hearlier]; rfl))
    · have habsent : (st (.session sessionId)).isSome = true := hsome
      rw [hnone] at habsent
      cases habsent
  submitted sessionId :=
    submitted_of_moved hmoved ((inputsChange_of_moved hmoved sessionId).submitted
      (nodup_sessionInputs (h.occurs sessionId)) (h.submitted sessionId))
  answered sessionId := by
    have hnodup := nodup_sessionInputs (h.occurs sessionId)
    have hchange := inputsChange_of_moved hmoved sessionId
    exact answered_of_moved hmoved (hchange.submitted hnodup (h.submitted sessionId))
      (hchange.answered hnodup (h.submitted sessionId) (h.answered sessionId))

/-- **What a commit of such moves may do.** -/
theorem since_of_moved (pid : ℕ) (h : IntegrationsKept options w)
    (hprecedes : ∀ k, (st k).isSome = true → (w.records k).Precedes (st k))
    (hmoved : ∀ k, st k = w.records k ∨ Moved options w.ghost.delivered w.records st k) :
    IntegrationsSince w ⟨st, observeCandidates pid w.records st w.ghost⟩ where
  precedes k hk := by
    cases hst : st k with
    | some record => exact hprecedes k (by rw [hst]; rfl)
    | none =>
      -- Only Sessions are deleted.
      have hsame : st k = w.records k := by
        refine (hmoved k).resolve_right fun hmove ↦ ?_
        cases k with
        | subscription bindingId threadKey =>
          obtain ⟨_, hsome, -⟩ := hmove
          exact nomatch hst.symm.trans hsome
        | integration sessionId => exact absurd hmove.1 (by simp [hst])
        | occurrence bindingId inputId => exact absurd hmove.2 (by simp [hst])
        | session sessionId => exact hk sessionId rfl
        | preparation sessionId =>
          obtain ⟨_, hsome, -⟩ := hmove
          exact nomatch hst.symm.trans hsome
        | candidate bindingId inputId =>
          rcases hmove with ⟨_, -, hsome, -, -, -, -, -⟩ | ⟨_, _, _, -, -, hsome, -, -⟩
          · exact nomatch hst.symm.trans hsome
          · exact nomatch hst.symm.trans hsome
        | limit bindingId hour => exact absurd hmove.1 (by simp [hst])
        | marker bindingId threadKey => exact absurd hmove.1 (by simp [hst])
        | explicit bindingId inputId =>
          obtain ⟨-, _, hsome, -⟩ := hmove
          exact nomatch hst.symm.trans hsome
      show (w.records k).Precedes (st k)
      rw [hsame]
      exact .refl _
  session := sessionKept_of_moved hmoved h.created hprecedes
  occurrence bindingId inputId occurrence := occurrence_of_moved hmoved
  explicit := explicitSince_of_moved hmoved
  candidate bindingId inputId candidate := candidate_of_moved hmoved
  inputs sessionId := (inputsChange_of_moved hmoved sessionId).ids_grow
  delivered _ hanswer := hanswer

/-- What the proofs about integrations share. -/
def integrationSpec (options : IntegrationOptions) :
    RecordSpec IntegrationKey IntegrationValue IntegrationGhost IntegrationCall where
  inv := IntegrationsKept options
  since := IntegrationsSince
  allowed _ := AdmitsFairly
  since_refl := .refl
  since_trans := .trans
  allowed_refl _ _ _ _ candidate hcandidate hadmitted hearlier :=
    absurd hadmitted (by rw [hearlier candidate hcandidate]; decide)

/-- **A commit is verified write by write.** -/
theorem steps_of_moved {ws : List IntegrationWrite} {p : ℕ × IntegrationCall}
    (h : IntegrationsKept options w) (hcommit : w.records.commit ws = some st)
    (hmoved : ∀ write ∈ ws, Moved options w.ghost.delivered w.records st write.key) :
    (integrationSpec options).Steps p w
      ⟨st, integrationSurroundings.observe p.1 w.records st w.ghost⟩ := by
  have hmoves : ∀ k, st k = w.records k ∨ Moved options w.ghost.delivered w.records st k := by
    intro k
    rcases Store.commit_cases hcommit k with hsame | ⟨write, hwrite, rfl, -⟩
    · exact .inl hsame
    · exact .inr (hmoved write hwrite)
  refine ⟨kept_of_moved p.1 h (Store.numbered_of_commit h.numbered hcommit) hmoves,
    since_of_moved p.1 h (fun k ↦ Store.precedes_of_isSome hcommit) hmoves, ?_⟩
  intro bindingId inputId candidate hcandidate hadmitted hearlier
  exact admits_of_moved hmoves hcandidate hadmitted hearlier

end

end RatThings
