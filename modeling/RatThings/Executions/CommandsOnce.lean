import RatThings.Executions.Commands

/-!
# A command takes effect at most once

A command is created by its requester, claimed by a drain, performed, and responded to by the one
who claimed it. This module has the invariant that makes its effect one, and what each request of
the store does to it.

## The invariant

Who may perform a command is decided by the claim: the claim is a compare-and-swap on a record that
is queued, so one caller makes it, and no later state of the record is queued again. Until the
claimant responds, the record and the list of effects are its own as far as this command goes
(`CommandWorld.Owns`), which is what the other callers guarantee (`CommandWorld.Step`).

`Consistent` relates four things that a command has: its record, the record of its response, the
caller that claimed it, and its effects. A record that is queued has none of the last three; one
that was claimed has a claimant and at most one effect; one that has ended has a response that says
what the effect was.

## The step lemmas

A request touches one command. `Differs` says that everything else is as it was, and
`ConsistentAt` what has to be shown of the one that is touched. For each request there are three
lemmas: what it writes, that the others are left alone, and that the command it touches is
consistent.
-/

namespace RatThings

open Concurrent Service Setting

/-! ## How commands move

A command goes from queued to claimed and on to an end, or from queued to an end, and never back. -/

/-- One step of a command: from queued to claimed or failed, and from claimed to an end. -/
inductive CommandState.Moves : CommandState → CommandState → Prop
  | refl (state : CommandState) : Moves state state
  | claim : Moves .queued .claimed
  | reject (message : String) : Moves .queued (.failed message)
  | complete (response : CommandResponse) : Moves .claimed (.completed response)
  | fail (message : String) : Moves .claimed (.failed message)

/-- A command never changes but for its state. -/
structure ExecutionCommand.Moves (old new : ExecutionCommand) : Prop where
  target : new.target = old.target
  request : new.request = old.request
  deadline : new.deadline = old.deadline
  state : old.state.Moves new.state

theorem ExecutionCommand.Moves.refl (command : ExecutionCommand) : command.Moves command :=
  ⟨rfl, rfl, rfl, .refl _⟩

/-- What is left of a record as time goes by. -/
structure CommandRecord.Precedes (old new : CommandRecord) : Prop where
  createdAt : new.createdAt = old.createdAt
  target : new.value.target = old.value.target
  request : new.value.request = old.value.request
  deadline : new.value.deadline = old.value.deadline
  settled : old.value.state ≠ .queued → new.value.state = old.value.state
  revision : old.revision ≤ new.revision
  same : old.revision = new.revision → old = new

theorem CommandRecord.Precedes.refl (record : CommandRecord) : record.Precedes record :=
  ⟨rfl, rfl, rfl, rfl, fun _ ↦ rfl, le_rfl, fun _ ↦ rfl⟩

theorem CommandRecord.Precedes.trans {a b c : CommandRecord} (h : a.Precedes b)
    (h' : b.Precedes c) : a.Precedes c := by
  refine ⟨h'.createdAt.trans h.createdAt, h'.target.trans h.target, h'.request.trans h.request,
    h'.deadline.trans h.deadline, fun hne ↦ ?_, h.revision.trans h'.revision, fun he ↦ ?_⟩
  · have hb : b.value.state = a.value.state := h.settled hne
    exact (h'.settled (hb ▸ hne)).trans hb
  · have hab : a = b := h.same (le_antisymm h.revision (he ▸ h'.revision))
    exact hab.trans (h'.same (hab ▸ he))

namespace CommandWorld

/-- The command as requester and drainers see it: the response, once there is one. -/
def command? (w : CommandWorld) (id : String) : Option ExecutionCommand :=
  (w.responses id).or ((w.commands id).map (·.value))

/-! ## The invariant

The claimants and the effects are ghost state: no request reads them. They say what happened, and
the invariant says that the records tell it. -/

/-- Records, responses, claims and effects agree. -/
structure Consistent (w : CommandWorld) : Prop where
  ids : w.ids.Nodup
  listed : ∀ id, id ∈ w.ids ↔ (w.commands id).isSome
  queued : ∀ id r, w.commands id = some r → r.value.state = .queued →
    r.revision = 1 ∧ r.deleted = false
  claimed : ∀ id r, w.commands id = some r →
    (r.value.state = .claimed ↔ (w.claimants id).isSome)
  claimants : ∀ id, (w.claimants id).isSome → (w.commands id).isSome
  requesters : ∀ id, (w.requesters id).isSome → (w.commands id).isSome
  answered : ∀ id, (w.responses id).isSome ↔ ∃ r, w.commands id = some r ∧ r.deleted = true
  /-- A response is that of the command, and what it reports has happened. -/
  responses : ∀ id v r, w.responses id = some v → w.commands id = some r →
    v.target = r.value.target ∧ v.request = r.value.request ∧ v.deadline = r.value.deadline ∧
      ((∃ message, v.state = .failed message) ∨ ∃ response, v.state = .completed response ∧
        ∃ e ∈ w.effects, e.id = id ∧ e.outcome = .ok response)
  once : (w.effects.map (·.id)).Nodup
  /-- Effects were performed for claimed commands, in their execution and before their deadline. -/
  effects : ∀ e ∈ w.effects, ∃ r, w.commands e.id = some r ∧ r.value.state = .claimed ∧
    sameExecution r.value.target e.target = true ∧ e.clock < r.value.deadline ∧
      e.request = r.value.request

/-- `w'` came after `w`. -/
structure Since (w w' : CommandWorld) : Prop where
  records : ∀ id r, w.commands id = some r → ∃ r', w'.commands id = some r' ∧ r.Precedes r'
  responses : ∀ id v, w.responses id = some v → w'.responses id = some v
  requesters : ∀ id q, w.requesters id = some q → w'.requesters id = some q
  effects : w.effects ⊆ w'.effects
  refusals : w.refusals ⊆ w'.refusals

theorem Since.refl (w : CommandWorld) : w.Since w :=
  ⟨fun _ r h ↦ ⟨r, h, .refl r⟩, fun _ _ h ↦ h, fun _ _ h ↦ h, List.Subset.refl _,
    List.Subset.refl _⟩

theorem Since.trans {a b c : CommandWorld} (h : a.Since b) (h' : b.Since c) : a.Since c := by
  refine ⟨fun id r hr ↦ ?_, fun id v hv ↦ h'.responses id v (h.responses id v hv),
    fun id q hq ↦ h'.requesters id q (h.requesters id q hq), List.Subset.trans h.effects h'.effects,
    List.Subset.trans h.refusals h'.refusals⟩
  obtain ⟨r₁, hr₁, hp₁⟩ := h.records id r hr
  obtain ⟨r₂, hr₂, hp₂⟩ := h'.records id r₁ hr₁
  exact ⟨r₂, hr₂, hp₁.trans hp₂⟩

/-- What a step of one caller does, and what it leaves to the others. -/
structure Step (p : ℕ) (w w' : CommandWorld) : Prop where
  since : w.Since w'
  moves : ∀ id v, w.command? id = some v → ∃ v', w'.command? id = some v' ∧ v.Moves v'
  /-- A command that another caller has claimed is left to it. -/
  claims : ∀ id q, q ≠ p → w.claimants id = some q → w'.commands id = w.commands id ∧
    w'.claimants id = some q ∧ ∀ e ∈ w'.effects, e.id = id → e ∈ w.effects
  clocks : ∀ q, q ≠ p → w'.clocks q = w.clocks q

theorem Step.refl (p : ℕ) (w : CommandWorld) : w.Step p w :=
  ⟨.refl w, fun _ v h ↦ ⟨v, h, .refl v⟩, fun _ _ _ h ↦ ⟨rfl, h, fun _ he _ ↦ he⟩, fun _ _ ↦ rfl⟩

/-! ## What a caller knows

All of these are stable: what was read may be outdated, but the records only move on. -/

/-- The command was read, or written, like this. -/
def Seen (saved : SavedCommand) (w : CommandWorld) : Prop :=
  (saved.value.state = .queued → saved.revision = 1) ∧ ∃ r, w.commands saved.id = some r ∧
    CommandRecord.Precedes ⟨saved.createdAt, saved.revision, saved.value, false⟩ r

/-- The command is not queued any more. -/
def Settled (id : String) (w : CommandWorld) : Prop :=
  ∃ r, w.commands id = some r ∧ r.value.state ≠ .queued

/-- The caller is done with the command: it is not queued any more, or the caller was refused it. -/
def Passed (p : ℕ) (id : String) (w : CommandWorld) : Prop :=
  w.Settled id ∨ (p, id) ∈ w.refusals

/-- The command is the caller's: it has claimed it, and nobody but it writes to it. -/
def Claims (p : ℕ) (claimed : SavedCommand) (w : CommandWorld) : Prop :=
  w.commands claimed.id =
      some ⟨claimed.createdAt, claimed.revision, claimed.value, false⟩ ∧
    claimed.value.state = .claimed ∧ w.claimants claimed.id = some p

/-- The caller has claimed the command, and not performed it. -/
def Owns (p : ℕ) (claimed : SavedCommand) (w : CommandWorld) : Prop :=
  w.Claims p claimed ∧ ∀ e ∈ w.effects, e.id ≠ claimed.id

/-- What may be recorded as the end of a command. -/
def Ended (id : String) (value : ExecutionCommand) (w : CommandWorld) : Prop :=
  (∃ message, value.state = .failed message) ∨ ∃ response, value.state = .completed response ∧
    ∃ e ∈ w.effects, e.id = id ∧ e.outcome = .ok response

variable {w w' : CommandWorld} {p : ℕ} {id : String} {saved claimed : SavedCommand}
  {value : ExecutionCommand} {record : CommandRecord}

theorem Seen.since (h : w.Seen saved) (hs : w.Since w') : w'.Seen saved := by
  obtain ⟨hfirst, r, hr, hp⟩ := h
  obtain ⟨r', hr', hp'⟩ := hs.records saved.id r hr
  exact ⟨hfirst, r', hr', hp.trans hp'⟩

theorem Settled.since (h : w.Settled id) (hs : w.Since w') : w'.Settled id := by
  obtain ⟨r, hr, hne⟩ := h
  obtain ⟨r', hr', hp⟩ := hs.records id r hr
  exact ⟨r', hr', by rwa [hp.settled hne]⟩

theorem Passed.since (h : w.Passed p id) (hs : w.Since w') : w'.Passed p id :=
  h.imp (fun h ↦ h.since hs) fun h ↦ hs.refusals h

theorem Ended.since (h : w.Ended id value) (hs : w.Since w') : w'.Ended id value := by
  rcases h with h | ⟨response, hvalue, e, he, hfields⟩
  · exact .inl h
  · exact .inr ⟨response, hvalue, e, hs.effects he, hfields⟩

theorem Claims.step {q : ℕ} (h : w.Claims p claimed) (hq : q ≠ p) (hs : w.Step q w') :
    w'.Claims p claimed := by
  obtain ⟨hr, hstate, hclaimant⟩ := h
  obtain ⟨hcommand, hclaimant', -⟩ := hs.claims claimed.id p (Ne.symm hq) hclaimant
  exact ⟨hcommand.trans hr, hstate, hclaimant'⟩

theorem Owns.step {q : ℕ} (h : w.Owns p claimed) (hq : q ≠ p) (hs : w.Step q w') :
    w'.Owns p claimed := by
  obtain ⟨hclaims, hnone⟩ := h
  obtain ⟨-, -, heffects⟩ := hs.claims claimed.id p (Ne.symm hq) hclaims.2.2
  exact ⟨hclaims.step hq hs, fun e he hid ↦ hnone e (heffects e he hid) hid⟩

/-- What was read and is there unchanged. -/
theorem Seen.unchanged (h : w.Seen saved) (hr : w.commands saved.id = some record)
    (hrevision : record.revision = saved.revision) :
    record = ⟨saved.createdAt, saved.revision, saved.value, false⟩ := by
  obtain ⟨-, r, hr', hp⟩ := h
  obtain rfl : r = record := Option.some.inj (hr'.symm.trans hr)
  exact (hp.same hrevision.symm).symm

/-- What was queued, and cannot be claimed, is not queued any more. -/
theorem Seen.settled (h : w.Seen saved) (hw : w.Consistent)
    (hnone : w.replace p saved value = none) : w.Settled saved.id := by
  obtain ⟨hfirst, r, hr, hp⟩ := h
  refine ⟨r, hr, fun hqueued ↦ ?_⟩
  obtain ⟨hrevision, hdeleted⟩ := hw.queued saved.id r hr hqueued
  have hsaved : saved.value.state = .queued := by
    by_contra hne
    exact hne ((hp.settled hne).symm.trans hqueued)
  rw [replace, hr] at hnone
  simp [hrevision, hdeleted, hfirst hsaved] at hnone

/-! ## The requests -/

/-- A command that nobody has claimed can be written to. -/
theorem Consistent.unclaimed (hw : w.Consistent) (hr : w.commands id = some record)
    (hstate : record.value.state ≠ .claimed) : w.claimants id = none := by
  rw [Option.eq_none_iff_forall_ne_some]
  intro q hq
  exact hstate ((hw.claimed id record hr).mpr (by rw [hq]; rfl))

theorem Consistent.unknown (hw : w.Consistent) (hnone : w.commands id = none) :
    w.claimants id = none ∧ w.requesters id = none ∧ w.responses id = none ∧
      ∀ e ∈ w.effects, e.id ≠ id := by
  refine ⟨?_, ?_, ?_, ?_⟩
  · have h := hw.claimants id
    rw [hnone] at h
    simpa using h
  · have h := hw.requesters id
    rw [hnone] at h
    simpa using h
  · have h := (hw.answered id).mp
    rw [hnone] at h
    simpa using h
  · rintro e he rfl
    obtain ⟨r, hr, -⟩ := hw.effects e he
    rw [hnone] at hr
    cases hr

theorem consistent_refuse (hw : w.Consistent) : (w.refuse p id).Consistent :=
  ⟨hw.ids, hw.listed, hw.queued, hw.claimed, hw.claimants, hw.requesters, hw.answered,
    hw.responses, hw.once, hw.effects⟩

theorem step_refuse : w.Step p (w.refuse p id) :=
  ⟨⟨fun _ r hr ↦ ⟨r, hr, .refl r⟩, fun _ _ h ↦ h, fun _ _ h ↦ h, List.Subset.refl _,
      List.subset_append_left _ _⟩, fun _ v hv ↦ ⟨v, hv, .refl v⟩,
    fun _ _ _ h ↦ ⟨rfl, h, fun _ he _ ↦ he⟩, fun _ _ ↦ rfl⟩

theorem passed_refuse : (w.refuse p id).Passed p id :=
  .inr (List.mem_append_right _ (List.mem_singleton_self _))

/-! ### One command at a time

A request touches one command, and what belongs to it. So its effect on the invariant is a question
about this command alone. -/

/-- Record, response, claim and effects of one command agree. -/
structure ConsistentAt (w : CommandWorld) (id : String) : Prop where
  listed : id ∈ w.ids ↔ (w.commands id).isSome
  queued : ∀ r, w.commands id = some r → r.value.state = .queued →
    r.revision = 1 ∧ r.deleted = false
  claimed : ∀ r, w.commands id = some r → (r.value.state = .claimed ↔ (w.claimants id).isSome)
  claimants : (w.claimants id).isSome → (w.commands id).isSome
  requesters : (w.requesters id).isSome → (w.commands id).isSome
  answered : (w.responses id).isSome ↔ ∃ r, w.commands id = some r ∧ r.deleted = true
  responses : ∀ v r, w.responses id = some v → w.commands id = some r →
    v.target = r.value.target ∧ v.request = r.value.request ∧ v.deadline = r.value.deadline ∧
      w.Ended id v
  effects : ∀ e ∈ w.effects, e.id = id → ∃ r, w.commands id = some r ∧
    r.value.state = .claimed ∧ sameExecution r.value.target e.target = true ∧
      e.clock < r.value.deadline ∧ e.request = r.value.request

theorem Consistent.at (hw : w.Consistent) (id : String) : w.ConsistentAt id :=
  ⟨hw.listed id, hw.queued id, hw.claimed id, hw.claimants id, hw.requesters id, hw.answered id,
    hw.responses id, fun e he hid ↦ hid ▸ hw.effects e he⟩

theorem Consistent.of_at (hids : w.ids.Nodup) (honce : (w.effects.map (·.id)).Nodup)
    (h : ∀ id, w.ConsistentAt id) : w.Consistent :=
  ⟨hids, fun id ↦ (h id).listed, fun id ↦ (h id).queued, fun id ↦ (h id).claimed,
    fun id ↦ (h id).claimants, fun id ↦ (h id).requesters, fun id ↦ (h id).answered,
    fun id ↦ (h id).responses, honce, fun e he ↦ (h e.id).effects e he rfl⟩

/-- The two states differ in one command, and what belongs to it. -/
structure Differs (id : String) (w w' : CommandWorld) : Prop where
  ids : ∀ id', id' ≠ id → (id' ∈ w'.ids ↔ id' ∈ w.ids)
  commands : ∀ id', id' ≠ id → w'.commands id' = w.commands id'
  responses : ∀ id', id' ≠ id → w'.responses id' = w.responses id'
  claimants : ∀ id', id' ≠ id → w'.claimants id' = w.claimants id'
  requesters : ∀ id', id' ≠ id → w'.requesters id' = w.requesters id'
  effects : ∀ e, e.id ≠ id → (e ∈ w'.effects ↔ e ∈ w.effects)
  kept : w.effects ⊆ w'.effects
  clocks : w'.clocks = w.clocks
  refusals : w'.refusals = w.refusals

theorem Differs.at {id' : String} (h : Differs id w w') (hid : id' ≠ id)
    (hw : w.ConsistentAt id') : w'.ConsistentAt id' := by
  have hcommands : w'.commands id' = w.commands id' := h.commands id' hid
  have hresponses : w'.responses id' = w.responses id' := h.responses id' hid
  have hclaimants : w'.claimants id' = w.claimants id' := h.claimants id' hid
  have hrequesters : w'.requesters id' = w.requesters id' := h.requesters id' hid
  constructor
  · rw [h.ids id' hid, hcommands]
    exact hw.listed
  · rw [hcommands]
    exact hw.queued
  · rw [hcommands, hclaimants]
    exact hw.claimed
  · rw [hcommands, hclaimants]
    exact hw.claimants
  · rw [hcommands, hrequesters]
    exact hw.requesters
  · rw [hcommands, hresponses]
    exact hw.answered
  · intro v r hv hr
    rw [hresponses] at hv
    rw [hcommands] at hr
    obtain ⟨htarget, hrequest, hdeadline, hend⟩ := hw.responses v r hv hr
    refine ⟨htarget, hrequest, hdeadline, hend.imp_right ?_⟩
    rintro ⟨response, hvalue, e, he, hfields⟩
    exact ⟨response, hvalue, e, h.kept he, hfields⟩
  · intro e he heq
    rw [hcommands]
    exact hw.effects e ((h.effects e (heq ▸ hid)).mp he) heq

theorem Differs.consistent (h : Differs id w w') (hw : w.Consistent) (hids : w'.ids.Nodup)
    (honce : (w'.effects.map (·.id)).Nodup) (hat : w'.ConsistentAt id) : w'.Consistent := by
  refine .of_at hids honce fun id' ↦ ?_
  by_cases hid : id' = id
  · exact hid ▸ hat
  · exact h.at hid (hw.at id')

/-- The step is allowed if what it does to its command is, and the command is not another
caller's. -/
theorem Differs.step (h : Differs id w w')
    (hrequester : ∀ q, w.requesters id = some q → w'.requesters id = some q)
    (hrecord : ∀ r, w.commands id = some r → ∃ r', w'.commands id = some r' ∧ r.Precedes r')
    (hresponse : ∀ v, w.responses id = some v → w'.responses id = some v)
    (hmoves : ∀ v, w.command? id = some v → ∃ v', w'.command? id = some v' ∧ v.Moves v')
    (hfree : ∀ q, q ≠ p → w.claimants id ≠ some q) : w.Step p w' := by
  refine ⟨⟨fun id' r hr ↦ ?_, fun id' v hv ↦ ?_, fun id' q hq ↦ ?_, h.kept,
    h.refusals ▸ List.Subset.refl _⟩, fun id' v hv ↦ ?_, fun id' q hq hclaimant ↦ ?_,
    fun q _ ↦ by rw [h.clocks]⟩
  · by_cases hid : id' = id
    · subst hid
      exact hrecord r hr
    · exact ⟨r, (h.commands id' hid).trans hr, .refl r⟩
  · by_cases hid : id' = id
    · subst hid
      exact hresponse v hv
    · exact (h.responses id' hid).trans hv
  · by_cases hid : id' = id
    · subst hid
      exact hrequester q hq
    · exact (h.requesters id' hid).trans hq
  · by_cases hid : id' = id
    · subst hid
      exact hmoves v hv
    · refine ⟨v, ?_, .refl v⟩
      rw [command?, h.commands id' hid, h.responses id' hid]
      exact hv
  · have hid : id' ≠ id := by
      rintro rfl
      exact hfree q hq hclaimant
    exact ⟨h.commands id' hid, (h.claimants id' hid).trans hclaimant,
      fun e he heq ↦ (h.effects e (heq ▸ hid)).mp he⟩

/-! ### Creating

A new command has an id that was not there, and nothing that belongs to it. -/

theorem create_eq_some {createdAt : ℕ} (h : w.create p id createdAt value = some w') :
    w.commands id = none ∧ w' = { w with
      ids := w.ids ++ [id]
      commands := Function.update w.commands id (some ⟨createdAt, 1, value, false⟩)
      requesters := Function.update w.requesters id (some p) } := by
  unfold create at h
  split at h
  · next hnone => exact ⟨hnone, (Option.some.inj h).symm⟩
  · cases h

theorem differs_create {createdAt : ℕ}
    (h : w.create p id createdAt value = some w') : Differs id w w' := by
  obtain ⟨-, rfl⟩ := create_eq_some h
  refine ⟨fun id' hid ↦ ?_, fun id' hid ↦ Function.update_of_ne hid .., fun _ _ ↦ rfl,
    fun _ _ ↦ rfl, fun id' hid ↦ Function.update_of_ne hid .., fun _ _ ↦ Iff.rfl,
    List.Subset.refl _, rfl, rfl⟩
  simp [hid]

theorem consistentAt_create {createdAt : ℕ} (hw : w.Consistent) (hqueued : value.state = .queued)
    (h : w.create p id createdAt value = some w') : w'.ConsistentAt id := by
  obtain ⟨hnone, heq⟩ := create_eq_some h
  obtain ⟨hclaimant, -, hresponse, hnoeffect⟩ := hw.unknown hnone
  have hrecord : w'.commands id = some ⟨createdAt, 1, value, false⟩ := by
    rw [heq]
    exact Function.update_self ..
  have hresponse' : w'.responses id = none := by rw [heq, hresponse]
  have hclaimant' : w'.claimants id = none := by rw [heq, hclaimant]
  have hids : id ∈ w'.ids := by
    rw [heq]
    exact List.mem_append_right _ (List.mem_singleton_self id)
  have heffects : w'.effects = w.effects := by rw [heq]
  constructor
  · simp [hids, hrecord]
  · intro r hr _
    cases hrecord.symm.trans hr
    exact ⟨rfl, rfl⟩
  · intro r hr
    cases hrecord.symm.trans hr
    simp [hqueued, hclaimant']
  · simp [hrecord]
  · simp [hrecord]
  · simp [hresponse', hrecord]
  · simp [hresponse']
  · intro e he hid
    exact absurd hid (hnoeffect e (heffects ▸ he))

theorem step_create {createdAt : ℕ} (hw : w.Consistent) (hqueued : value.state = .queued)
    (h : w.create p id createdAt value = some w') :
    w'.Consistent ∧ w.Step p w' ∧ w'.requesters id = some p ∧ ∃ r, w'.commands id = some r ∧
      r.value = value := by
  have hdiffers : Differs id w w' := differs_create h
  have hat : w'.ConsistentAt id := consistentAt_create hw hqueued h
  obtain ⟨hnone, rfl⟩ := create_eq_some h
  obtain ⟨hclaimant, hrequester, hresponse, -⟩ := hw.unknown hnone
  have hfresh : id ∉ w.ids := by
    rw [hw.listed, hnone]
    exact Bool.false_ne_true
  refine ⟨hdiffers.consistent hw ?_ hw.once hat, hdiffers.step ?_ ?_ ?_ ?_ ?_,
    Function.update_self .., _, Function.update_self .., rfl⟩
  · exact List.nodup_append.mpr ⟨hw.ids, List.nodup_singleton id, fun a ha b hb hab ↦
      hfresh (List.mem_singleton.mp hb ▸ hab ▸ ha)⟩
  · simp [hrequester]
  · simp [hnone]
  · simp [hresponse]
  · simp [command?, hresponse, hnone]
  · simp [hclaimant]

/-! ### Claiming and rejecting

Both write over a queued command, on the condition that it has not changed since it was read. -/

theorem replace_eq_some (h : w.replace p saved value = some w') :
    ∃ r, w.commands saved.id = some r ∧ r.revision = saved.revision ∧ r.deleted = false ∧
      w' = { w with
        commands := Function.update w.commands saved.id
          (some { r with revision := saved.revision + 1, value := value })
        claimants := if value.state = .claimed then
            Function.update w.claimants saved.id (some p) else w.claimants } := by
  unfold replace at h
  split at h
  · next r hr =>
    split at h
    · next hcondition => exact ⟨r, hr, hcondition.1, hcondition.2, (Option.some.inj h).symm⟩
    · cases h
  · cases h

theorem differs_replace (h : w.replace p saved value = some w') : Differs saved.id w w' := by
  obtain ⟨r, -, -, -, rfl⟩ := replace_eq_some h
  refine ⟨fun _ _ ↦ Iff.rfl, fun id' hid ↦ Function.update_of_ne hid .., fun _ _ ↦ rfl,
    fun id' hid ↦ ?_, fun _ _ ↦ rfl, fun _ _ ↦ Iff.rfl, List.Subset.refl _, rfl, rfl⟩
  dsimp only
  split
  · exact Function.update_of_ne hid ..
  · rfl

/-- A command that was read as queued, and is found unchanged, is as new. -/
theorem Consistent.queued_seen (hw : w.Consistent) (hseen : w.Seen saved)
    (hqueued : saved.value.state = .queued) (hr : w.commands saved.id = some record)
    (hrevision : record.revision = saved.revision) :
    record = ⟨saved.createdAt, saved.revision, saved.value, false⟩ ∧
      w.claimants saved.id = none ∧ w.responses saved.id = none ∧
      ∀ e ∈ w.effects, e.id ≠ saved.id := by
  obtain rfl := hseen.unchanged hr hrevision
  refine ⟨rfl, hw.unclaimed hr (by simp [hqueued]), ?_, fun e he heq ↦ ?_⟩
  · have hanswered := hw.answered saved.id
    simpa [hr] using hanswered
  · obtain ⟨r, hr', hstate, -⟩ := hw.effects e he
    rw [heq, hr] at hr'
    cases hr'
    rw [hqueued] at hstate
    cases hstate

theorem consistentAt_replace (hw : w.Consistent) (hseen : w.Seen saved)
    (hqueued : saved.value.state = .queued) (hne : value.state ≠ .queued)
    (h : w.replace p saved value = some w') : w'.ConsistentAt saved.id := by
  obtain ⟨r, hr, hrevision, -, heq⟩ := replace_eq_some h
  obtain ⟨rfl, hclaimant, hresponse, hnoeffect⟩ := hw.queued_seen hseen hqueued hr hrevision
  have hrecord : w'.commands saved.id =
      some ⟨saved.createdAt, saved.revision + 1, value, false⟩ := by
    rw [heq]
    exact Function.update_self ..
  have hresponse' : w'.responses saved.id = none := by rw [heq, hresponse]
  have hids : w'.ids = w.ids := by rw [heq]
  have heffects : w'.effects = w.effects := by rw [heq]
  constructor
  · simp [hids, hw.listed, hr, hrecord]
  · intro r' hr' hstate
    cases hrecord.symm.trans hr'
    exact absurd hstate hne
  · intro r' hr'
    cases hrecord.symm.trans hr'
    rw [heq]
    by_cases hclaimed : value.state = .claimed
    · simp [hclaimed]
    · simp [hclaimed, hclaimant]
  · simp [hrecord]
  · simp [hrecord]
  · simp [hresponse', hrecord]
  · simp [hresponse']
  · intro e he hid
    exact absurd hid (hnoeffect e (heffects ▸ he))

/-- What is written over a queued command: the claim, or the reason why it is not executed. -/
theorem step_replace (hw : w.Consistent) (hseen : w.Seen saved)
    (hmoves : saved.value.Moves value) (hqueued : saved.value.state = .queued)
    (hne : value.state ≠ .queued) (h : w.replace p saved value = some w') :
    w'.Consistent ∧ w.Step p w' ∧
      w'.commands saved.id = some ⟨saved.createdAt, saved.revision + 1, value, false⟩ ∧
      (value.state = .claimed → w'.claimants saved.id = some p ∧
        ∀ e ∈ w'.effects, e.id ≠ saved.id) := by
  have hdiffers : Differs saved.id w w' := differs_replace h
  have hat : w'.ConsistentAt saved.id := consistentAt_replace hw hseen hqueued hne h
  obtain ⟨r, hr, hrevision, -, rfl⟩ := replace_eq_some h
  obtain ⟨rfl, hclaimant, hresponse, hnoeffect⟩ := hw.queued_seen hseen hqueued hr hrevision
  refine ⟨hdiffers.consistent hw hw.ids hw.once hat,
    hdiffers.step (fun _ hq ↦ hq) (fun r hr' ↦ ?_) (fun _ hv ↦ hv) (fun v hv ↦ ?_)
      fun q _ hq ↦ ?_, Function.update_self .., fun hclaimed ↦ ⟨?_, hnoeffect⟩⟩
  · rw [hr] at hr'
    cases hr'
    exact ⟨_, Function.update_self .., rfl, hmoves.target, hmoves.request, hmoves.deadline,
      fun hno ↦ absurd hqueued hno, Nat.le_succ _, fun he ↦ absurd he (Nat.succ_ne_self _).symm⟩
  · rw [command?, hresponse, hr] at hv
    cases hv
    exact ⟨value, by simp [command?, hresponse], hmoves⟩
  · rw [hclaimant] at hq
    cases hq
  · simp [hclaimed]

/-! ### Responding

The record is deleted and the response is written, both in one transaction. -/

theorem respond_eq_some (h : w.respond claimed value = some w') :
    ∃ r, w.commands claimed.id = some r ∧ w.responses claimed.id = none ∧
      r.revision = claimed.revision ∧ r.deleted = false ∧ w' = { w with
        commands := Function.update w.commands claimed.id
          (some { r with revision := claimed.revision + 1, deleted := true })
        responses := Function.update w.responses claimed.id (some value) } := by
  unfold respond at h
  split at h
  · next r hr hnone =>
    split at h
    · next hcondition => exact ⟨r, hr, hnone, hcondition.1, hcondition.2, (Option.some.inj h).symm⟩
    · cases h
  · cases h

theorem differs_respond (h : w.respond claimed value = some w') : Differs claimed.id w w' := by
  obtain ⟨r, -, -, -, -, rfl⟩ := respond_eq_some h
  exact ⟨fun _ _ ↦ Iff.rfl, fun id' hid ↦ Function.update_of_ne hid ..,
    fun id' hid ↦ Function.update_of_ne hid .., fun _ _ ↦ rfl, fun _ _ ↦ rfl, fun _ _ ↦ Iff.rfl,
    List.Subset.refl _, rfl, rfl⟩

theorem consistentAt_respond (hw : w.Consistent) (hseen : w.Seen claimed)
    (hmoves : claimed.value.Moves value) (hne : claimed.value.state ≠ .queued)
    (hended : w.Ended claimed.id value) (h : w.respond claimed value = some w') :
    w'.ConsistentAt claimed.id := by
  obtain ⟨r, hr, -, hrevision, -, heq⟩ := respond_eq_some h
  obtain rfl := hseen.unchanged hr hrevision
  have hold : w.ConsistentAt claimed.id := hw.at claimed.id
  have hrecord : w'.commands claimed.id =
      some ⟨claimed.createdAt, claimed.revision + 1, claimed.value, true⟩ := by
    rw [heq]
    exact Function.update_self ..
  have hanswer : w'.responses claimed.id = some value := by
    rw [heq]
    exact Function.update_self ..
  have hclaimants : w'.claimants = w.claimants := by rw [heq]
  have hids : w'.ids = w.ids := by rw [heq]
  have heffects : w'.effects = w.effects := by rw [heq]
  constructor
  · simp [hids, hold.listed, hr, hrecord]
  · intro r' hr' hstate
    cases hrecord.symm.trans hr'
    exact absurd hstate hne
  · intro r' hr'
    cases hrecord.symm.trans hr'
    have hclaimed := hold.claimed _ hr
    rwa [hclaimants]
  · simp [hrecord]
  · simp [hrecord]
  · simp [hanswer, hrecord]
  · intro v r' hv hr'
    cases hanswer.symm.trans hv
    cases hrecord.symm.trans hr'
    exact ⟨hmoves.target, hmoves.request, hmoves.deadline, by rw [Ended, heffects]; exact hended⟩
  · intro e he hid
    obtain ⟨r', hr', hfields⟩ := hold.effects e (heffects ▸ he) hid
    cases hr.symm.trans hr'
    exact ⟨_, hrecord, hfields⟩

/-- The end of a command: that of a rejected one, or of one that the caller has claimed. -/
theorem step_respond (hw : w.Consistent) (hseen : w.Seen claimed)
    (hmoves : claimed.value.Moves value) (hne : claimed.value.state ≠ .queued)
    (hended : w.Ended claimed.id value)
    (hfree : ∀ q, q ≠ p → w.claimants claimed.id ≠ some q)
    (h : w.respond claimed value = some w') : w'.Consistent ∧ w.Step p w' := by
  have hdiffers : Differs claimed.id w w' := differs_respond h
  have hat : w'.ConsistentAt claimed.id := consistentAt_respond hw hseen hmoves hne hended h
  obtain ⟨r, hr, hnone, hrevision, -, rfl⟩ := respond_eq_some h
  obtain rfl := hseen.unchanged hr hrevision
  refine ⟨hdiffers.consistent hw hw.ids hw.once hat,
    hdiffers.step (fun _ hq ↦ hq) (fun r hr' ↦ ?_) (fun v hv ↦ ?_) (fun v hv ↦ ?_) hfree⟩
  · rw [hr] at hr'
    cases hr'
    exact ⟨_, Function.update_self .., rfl, rfl, rfl, rfl, fun _ ↦ rfl, Nat.le_succ _,
      fun he ↦ absurd he (Nat.succ_ne_self _).symm⟩
  · rw [hnone] at hv
    cases hv
  · rw [command?, hnone, hr] at hv
    cases hv
    exact ⟨value, by simp [command?], hmoves⟩

/-! ### Performing -/

theorem differs_perform {target : ExecutionCommandTarget}
    {outcome : Except String CommandResponse} :
    Differs claimed.id w (w.perform p claimed target outcome) := by
  refine ⟨fun _ _ ↦ Iff.rfl, fun _ _ ↦ rfl, fun _ _ ↦ rfl, fun _ _ ↦ rfl, fun _ _ ↦ rfl,
    fun e he ↦ ?_, List.subset_append_left _ _, rfl, rfl⟩
  rw [perform, List.mem_append, List.mem_singleton]
  refine or_iff_left fun hnew ↦ he ?_
  rw [hnew]

theorem step_perform {target : ExecutionCommandTarget} {outcome : Except String CommandResponse}
    (hw : w.Consistent) (howns : w.Owns p claimed)
    (hsame : sameExecution claimed.value.target target = true)
    (hclock : w.clocks p < claimed.value.deadline) :
    (w.perform p claimed target outcome).Consistent ∧
      w.Step p (w.perform p claimed target outcome) ∧
      (w.perform p claimed target outcome).Claims p claimed ∧
      ∃ e ∈ (w.perform p claimed target outcome).effects, e.id = claimed.id ∧
        e.outcome = outcome := by
  obtain ⟨⟨hr, hstate, hclaimant⟩, hnone⟩ := howns
  have hold : w.ConsistentAt claimed.id := hw.at claimed.id
  have hkept : w.effects ⊆ (w.perform p claimed target outcome).effects :=
    List.subset_append_left _ _
  refine ⟨differs_perform.consistent hw hw.ids ?_ ⟨hold.listed, hold.queued, hold.claimed,
      hold.claimants, hold.requesters, hold.answered, fun v r hv hr' ↦ ?_, fun e he _ ↦ ?_⟩,
    differs_perform.step (fun _ hq ↦ hq) (fun r hr' ↦ ⟨r, hr', .refl r⟩) (fun _ hv ↦ hv)
      (fun v hv ↦ ⟨v, hv, .refl v⟩) fun q hq hclaimant' ↦ ?_,
    ⟨hr, hstate, hclaimant⟩, _, List.mem_append_right _ (List.mem_singleton_self _), rfl, rfl⟩
  · rw [perform, List.map_append]
    refine List.nodup_append.mpr ⟨hw.once, List.nodup_singleton _, ?_⟩
    rintro a ha b hb rfl
    obtain ⟨e, he, rfl⟩ := List.mem_map.mp ha
    exact hnone e he (List.mem_singleton.mp hb)
  · obtain ⟨htarget, hrequest, hdeadline, hend⟩ := hold.responses v r hv hr'
    refine ⟨htarget, hrequest, hdeadline, hend.imp_right ?_⟩
    rintro ⟨response, hvalue, e, he, hfields⟩
    exact ⟨response, hvalue, e, hkept he, hfields⟩
  · rw [perform, List.mem_append, List.mem_singleton] at he
    rcases he with he | rfl
    · exact absurd ‹e.id = claimed.id› (hnone e he)
    · exact ⟨_, hr, hstate, hsame, hclock, rfl⟩
  · rw [hclaimant] at hclaimant'
    cases hclaimant'
    exact hq rfl

end CommandWorld

end RatThings
