import RatThings.Schedules.Service

/-!
# A due time is decided once

Invocations of a schedule come from outside, several times for a due time and in any order, while
the schedule is edited. Each may accept the due time, skip it, or find it decided. This module
proves what every run keeps: the first decision stands, and what it went by was so when it was
written.

## The construction

Decisions are only ever added to the record of a schedule (`Keeps`), and a decision is added where
the compare-and-swap has found the schedule as the invocation read it. So what the invocation went
by (that the schedule was active, its generation, the due time undecided) still holds when the
decision is written, and what it was told about the last accepted Session it was told while the
schedule had the revision that is being replaced.

The last point needs a history, since Sessions do not stand still: the answers that a caller was
given are kept with the revision of the schedule at that moment (`ToldActive`). An invocation whose
write succeeds was given its answers at the revision it replaces.

`ScheduleChange` lists what one step may do to the record and to what was handed on, and every
result about runs is read off it.
-/

namespace RatThings

open Concurrent Prog Service Setting

/-! ## What an invocation was told -/

/-- The caller was told, while the schedule had this revision, whether the Session was active: at
work, or still to be created. -/
inductive ToldActive (checks : List SessionCheck) (caller : ℕ) (id : String) (revision : ℕ) :
    Bool → Prop
  | session (status : SessionStatus) : ⟨caller, id, revision, .session status⟩ ∈ checks →
      ToldActive checks caller id revision (status == .inProgress)
  | missing (inputs : Option (List (Option String))) :
      ⟨caller, id, revision, .missing⟩ ∈ checks →
      ⟨caller, id, revision, .integration inputs⟩ ∈ checks →
      ToldActive checks caller id revision (inputs.all fun turnIds ↦ turnIds.any (·.isNone))

/-- What an invocation may decide about a due time that is undecided in this record. The number is
the revision of the record. -/
inductive Decides (scheduleId : String) (checks : List SessionCheck) (caller : ℕ)
    (scheduledAt : String) (state : ScheduleState) (revision : ℕ) : ScheduleOccurrence → Prop
  | skip (id : String) : state.schedule.configuration.overlap = .skip →
      state.activeSessionId = some id → ToldActive checks caller id revision true →
      Decides scheduleId checks caller scheduledAt state revision .skipped
  | accept (runtimePin : Option String) :
      (∀ id, state.schedule.configuration.overlap = .skip → state.activeSessionId = some id →
        ToldActive checks caller id revision false) →
      Decides scheduleId checks caller scheduledAt state revision
        (.accepted (integrationSessionId scheduleId scheduledAt) state.schedule.configuration
          runtimePin)

/-! ## Decisions are only added

A decision is never taken back, and the Sessions of those that accept stay in their order. -/

namespace ScheduleState

variable {state next : ScheduleState} {scheduledAt at' : String} {occurrence : ScheduleOccurrence}

/-- Whatever was decided is still decided so. -/
def Keeps (state next : ScheduleState) : Prop :=
  ∀ scheduledAt occurrence, state.lookup scheduledAt = some occurrence →
    next.lookup scheduledAt = some occurrence

theorem keeps_decide (scheduledAt : String) (occurrence : ScheduleOccurrence) :
    state.Keeps (state.decide scheduledAt occurrence) := by
  intro at' occurrence' h
  rw [lookup] at h ⊢
  rw [decide, List.lookup_append, h]
  rfl

theorem lookup_decide_self (h : state.lookup scheduledAt = none) :
    (state.decide scheduledAt occurrence).lookup scheduledAt = some occurrence := by
  rw [lookup] at h ⊢
  rw [decide, List.lookup_append, h]
  simp

theorem lookup_decide_of_ne (h : at' ≠ scheduledAt) :
    (state.decide scheduledAt occurrence).lookup at' = state.lookup at' := by
  have hne : (at' == scheduledAt) = false := by simpa using h
  rw [lookup, lookup, decide, List.lookup_append]
  simp [List.lookup_cons, hne]

/-- The Sessions of the accepted occurrences, in the order of the decisions. -/
def sessionIds (state : ScheduleState) : List String :=
  state.occurrences.filterMap (·.2.sessionId?)

/-- The last accepted occurrence is the one that a decision looks at. -/
theorem activeSessionId_decide (h : state.activeSessionId = state.sessionIds.getLast?) :
    (state.decide scheduledAt occurrence).activeSessionId =
      (state.decide scheduledAt occurrence).sessionIds.getLast? := by
  cases occurrence with
  | skipped => simpa [decide, sessionIds, ScheduleOccurrence.sessionId?] using h
  | accepted sessionId configuration runtimePin =>
    simp [decide, sessionIds, ScheduleOccurrence.sessionId?]

end ScheduleState

/-! ## What may happen to the world -/

/-- What one step of a call may do to the schedule. -/
inductive ScheduleChange (scheduleId : String) (p : ℕ × ScheduleCall) (w w' : ScheduleWorld) : Prop
  | none (after : w'.records () = w.records ())
  | create (schedule : Schedule) (before : w.records () = Option.none)
      (after : w'.records () = some ⟨1, ⟨schedule, Option.none, []⟩⟩)
  | edit (record : Versioned ScheduleState) (schedule : Schedule)
      (before : w.records () = some record)
      (after : w'.records () = some ⟨record.revision + 1,
        { record.value with schedule := schedule }⟩)
  | decide (invocation : ScheduleInvocation) (record : Versioned ScheduleState)
      (occurrence : ScheduleOccurrence) (call : p.2 = .invoke invocation)
      (before : w.records () = some record)
      (undecided : record.value.lookup invocation.scheduledAt = Option.none)
      (active : record.value.schedule.status = .active)
      (current : invocation.generation = record.value.schedule.generation)
      (decision : Decides scheduleId w.ghost.checks p.1 invocation.scheduledAt record.value
        record.revision occurrence)
      (after : w'.records () = some ⟨record.revision + 1,
        record.value.decide invocation.scheduledAt occurrence⟩)

/-- What was decided about a due time. -/
def ScheduleWorld.decided (w : ScheduleWorld) (scheduledAt : String) : Option ScheduleOccurrence :=
  (w.records ()).bind fun record ↦ record.value.lookup scheduledAt

structure ScheduleWorld.Consistent (w : ScheduleWorld) : Prop where
  revision : w.ghost.revision = (w.records ()).revision
  checked : ∀ check ∈ w.ghost.checks, check.revision ≤ (w.records ()).revision
  counted : ∀ record, w.records () = some record → 0 < record.revision
  last : ∀ record, w.records () = some record →
    record.value.activeSessionId = record.value.sessionIds.getLast?
  submitted : ∀ submission ∈ w.ghost.submitted, ∃ sessionId,
    w.decided submission.scheduledAt =
      some (.accepted sessionId submission.configuration submission.runtimePin)

/-- The second world came after the first. -/
structure ScheduleWorld.Extends (w w' : ScheduleWorld) : Prop where
  record : (w.records ()).Precedes (w'.records ())
  decided : ∀ scheduledAt occurrence, w.decided scheduledAt = some occurrence →
    w'.decided scheduledAt = some occurrence
  checks : w.ghost.checks ⊆ w'.ghost.checks

namespace ScheduleWorld

variable {scheduleId : String} {p : ℕ × ScheduleCall} {w w' w₁ w₂ w₃ : ScheduleWorld}

theorem Extends.refl (w : ScheduleWorld) : w.Extends w :=
  ⟨.refl _, fun _ _ h ↦ h, List.Subset.refl _⟩

theorem Extends.trans (h : w₁.Extends w₂) (h' : w₂.Extends w₃) : w₁.Extends w₃ :=
  ⟨h.record.trans h'.record, fun scheduledAt occurrence hd ↦
    h'.decided scheduledAt occurrence (h.decided scheduledAt occurrence hd),
      List.Subset.trans h.checks h'.checks⟩

theorem decided_of_record {record : Versioned ScheduleState} (h : w.records () = some record)
    (scheduledAt : String) : w.decided scheduledAt = record.value.lookup scheduledAt := by
  rw [decided, h]
  rfl

/-- A later record that keeps the decisions. -/
theorem Extends.of_record {record : Versioned ScheduleState} {next : ScheduleState}
    (hbefore : w.records () = some record)
    (hafter : w'.records () = some ⟨record.revision + 1, next⟩)
    (hkeeps : record.value.Keeps next) (hchecks : w.ghost.checks ⊆ w'.ghost.checks) :
    w.Extends w' := by
  refine ⟨?_, fun scheduledAt occurrence hd ↦ ?_, hchecks⟩
  · rw [hbefore, hafter]
    constructor <;> simp
  · rw [decided_of_record hbefore] at hd
    rw [decided_of_record hafter]
    exact hkeeps scheduledAt occurrence hd

theorem Extends.of_change (h : ScheduleChange scheduleId p w w')
    (hchecks : w.ghost.checks ⊆ w'.ghost.checks) : w.Extends w' := by
  rcases h with hsame | ⟨schedule, hbefore, hafter⟩ | ⟨record, schedule, hbefore, hafter⟩ |
    ⟨invocation, record, occurrence, -, hbefore, -, -, -, -, hafter⟩
  · refine ⟨?_, fun scheduledAt occurrence hd ↦ ?_, hchecks⟩
    · rw [hsame]
      exact .refl _
    · rw [ScheduleWorld.decided, hsame]
      exact hd
  · refine ⟨?_, fun scheduledAt occurrence hd ↦ ?_, hchecks⟩
    · rw [hbefore, hafter]
      constructor <;> simp
    · rw [ScheduleWorld.decided, hbefore] at hd
      cases hd
  · exact .of_record hbefore hafter (fun _ _ h ↦ h) hchecks
  · exact .of_record hbefore hafter (ScheduleState.keeps_decide _ _) hchecks

/-- The invariant follows a write to the schedule. -/
theorem Consistent.of_change (hw : w.Consistent) (h : ScheduleChange scheduleId p w w')
    (hghost : w'.ghost = { w.ghost with revision := (w'.records ()).revision }) :
    w'.Consistent := by
  have hext : w.Extends w' := .of_change h (by rw [hghost]; exact List.Subset.refl _)
  constructor
  · rw [hghost]
  · intro check hcheck
    rw [hghost] at hcheck
    exact (hw.checked check hcheck).trans hext.record.1
  · intro record' hrecord'
    rcases h with hsame | ⟨schedule, -, hafter⟩ | ⟨record, schedule, -, hafter⟩ |
      ⟨invocation, record, occurrence, -, -, -, -, -, -, hafter⟩
    · exact hw.counted record' (hsame ▸ hrecord')
    all_goals
      obtain rfl := Option.some.inj (hafter.symm.trans hrecord')
      exact Nat.succ_pos _
  · intro record' hrecord'
    rcases h with hsame | ⟨schedule, -, hafter⟩ | ⟨record, schedule, hbefore, hafter⟩ |
      ⟨invocation, record, occurrence, -, hbefore, -, -, -, -, hafter⟩
    · exact hw.last record' (hsame ▸ hrecord')
    · obtain rfl := Option.some.inj (hafter.symm.trans hrecord')
      rfl
    · obtain rfl := Option.some.inj (hafter.symm.trans hrecord')
      exact hw.last record hbefore
    · obtain rfl := Option.some.inj (hafter.symm.trans hrecord')
      exact ScheduleState.activeSessionId_decide (hw.last record hbefore)
  · intro submission hsubmission
    rw [hghost] at hsubmission
    obtain ⟨sessionId, hdecided⟩ := hw.submitted submission hsubmission
    exact ⟨sessionId, hext.decided _ _ hdecided⟩

/-- The invariant follows what an invocation is told. -/
theorem Consistent.see (hw : w.Consistent) (pid : ℕ) (id : String) (sight : SessionSight) :
    Consistent ⟨w.records, w.ghost.see pid id sight⟩ := by
  refine ⟨hw.revision, fun check hcheck ↦ ?_, hw.counted, hw.last, hw.submitted⟩
  rcases List.mem_append.mp hcheck with hold | hnew
  · exact hw.checked check hold
  · obtain rfl := List.mem_singleton.mp hnew
    exact hw.revision.le

theorem Extends.see (w : ScheduleWorld) (pid : ℕ) (id : String) (sight : SessionSight) :
    w.Extends ⟨w.records, w.ghost.see pid id sight⟩ :=
  ⟨.refl _, fun _ _ h ↦ h, List.subset_append_left _ _⟩

end ScheduleWorld

def scheduleSpec (scheduleId : String) :
    RecordSpec Unit ScheduleValue ScheduleGhost ScheduleCall where
  inv := ScheduleWorld.Consistent
  since := ScheduleWorld.Extends
  allowed := ScheduleChange scheduleId
  since_refl := .refl
  since_trans := .trans
  allowed_refl _ _ := .none rfl

abbrev scheduleSetting (scheduleId : String) :
    Setting ScheduleWorld (RecordEffect Unit ScheduleValue ScheduleAsk)
      (RecordEffect.Answer ScheduleAsk.Answer) ServiceFailure ScheduleResult ScheduleCall
      (RecordChoice ScheduleChoice) :=
  (scheduleSpec scheduleId).setting scheduleSurroundings (scheduleBody scheduleId) .free

section

variable {scheduleId id : String} {p : ℕ × ScheduleCall} {P : ScheduleWorld → Prop}
  {w w₀ : ScheduleWorld} {st : Store Unit ScheduleValue}

theorem since_permanent_schedule (w₀ : ScheduleWorld) :
    (scheduleSetting scheduleId).Permanent w₀.Extends :=
  RecordSpec.since_permanent w₀

/-! ## Steps -/

/-- A commit that makes one of the changes. -/
theorem steps_of_scheduleChange (hw : w.Consistent)
    (h : ScheduleChange scheduleId p w ⟨st, { w.ghost with revision := (st ()).revision }⟩) :
    (scheduleSpec scheduleId).Steps p w
      ⟨st, scheduleSurroundings.observe p.1 w.records st w.ghost⟩ :=
  ⟨hw.of_change h rfl, .of_change h (List.Subset.refl _), h⟩

/-- A write that takes effect has found the schedule as it was read. -/
theorem found_schedule {record : Versioned ScheduleState} {next : ScheduleState}
    (hread : w₀.records () = some record) (hsince : w₀.Extends w)
    (h : w.records.commit [⟨(), record.revision, some next⟩] = some st) :
    w.records () = some record ∧ st () = some ⟨record.revision + 1, next⟩ :=
  ⟨(Store.commit_of_seen h List.mem_cons_self (by rw [hread]; rfl) hsince.record).trans hread,
    Store.commit_written h List.mem_cons_self (by simp)⟩

/-- An edit of the schedule leaves what was decided alone. -/
theorem meets_editSchedule {record : Versioned ScheduleState} {schedule : Schedule}
    (hread : w₀.records () = some record) :
    (scheduleSetting scheduleId).Meets p w₀.Extends
      (ScheduleService.putSchedule record { record.value with schedule := schedule })
      (fun _ _ ↦ True) fun _ _ ↦ True := by
  refine (meets_commitWrites (R := fun _ ↦ True) (since_permanent_schedule w₀)
    fun w st hw hsince h ↦ ?_).conseq (fun _ _ h ↦ h) (fun _ _ _ _ ↦ trivial) fun _ _ _ _ ↦ trivial
  obtain ⟨hbefore, hafter⟩ := found_schedule hread hsince h
  exact ⟨steps_of_scheduleChange hw (.edit record schedule hbefore hafter), trivial⟩

/-! ## Questions

What was answered is kept for as long as the schedule has its revision. -/

theorem yields_askSchedule {q : ScheduleAsk}
    (h : ∀ x g a g', scheduleSurroundings.answer p.1 q x g = some (a, g') → g' = g) :
    (scheduleSetting scheduleId).Yields p (askSchedule q) fun _ ↦ True :=
  (RecordSpec.yields_ask fun x a g g' ha ↦ h x g a g' ha).forget

/-- The caller was told this of the Session since the world `w₀`. -/
def Seen (w₀ : ScheduleWorld) (caller : ℕ) (id : String) (sight : SessionSight)
    (w : ScheduleWorld) : Prop :=
  ∃ revision, (w₀.records ()).revision ≤ revision ∧ ⟨caller, id, revision, sight⟩ ∈ w.ghost.checks

theorem Seen.since {sight : SessionSight} {caller : ℕ} {w' : ScheduleWorld}
    (h : Seen w₀ caller id sight w) (hsince : w.Extends w') : Seen w₀ caller id sight w' :=
  h.imp fun _ hseen ↦ ⟨hseen.1, hsince.checks hseen.2⟩

/-- What was told since a record was read was told while it was stored, as long as it is. -/
theorem Seen.at_record {sight : SessionSight} {caller : ℕ} {record : Versioned ScheduleState}
    (h : Seen w₀ caller id sight w) (hw : w.Consistent) (hread : w₀.records () = some record)
    (hfound : w.records () = some record) :
    ⟨caller, id, record.revision, sight⟩ ∈ w.ghost.checks := by
  obtain ⟨revision, hle, hmem⟩ := h
  have hbound : revision ≤ (w.records ()).revision := hw.checked _ hmem
  rw [hread, Slot.revision_some] at hle
  rw [hfound, Slot.revision_some] at hbound
  obtain rfl : revision = record.revision := by omega
  exact hmem

/-- A question about a Session, from what the history says about each of its answers. -/
theorem meets_sight {q : ScheduleAsk} {R : q.Answer → ScheduleWorld → Prop}
    (hP : (scheduleSetting scheduleId).Permanent P)
    (h : ∀ w x a g, ScheduleWorld.Consistent w → P w →
      scheduleSurroundings.answer p.1 q x w.ghost = some (a, g) →
        (g = w.ghost ∨ ∃ id sight, g = w.ghost.see p.1 id sight) ∧ R a ⟨w.records, g⟩) :
    (scheduleSetting scheduleId).Meets p P (askSchedule q) (fun a w ↦ P w ∧ R a w)
      fun _ _ ↦ True := by
  refine RecordSpec.meets_ask hP ?_
  intro w x a g hw hp _ hanswer
  obtain ⟨hghost | ⟨id, sight, hghost⟩, hr⟩ := h w x.answer a g hw hp hanswer
  · subst hghost
    exact ⟨⟨hw, .refl _, .none rfl⟩, hr⟩
  · subst hghost
    exact ⟨⟨hw.see _ _ _, .see _ _ _ _, .none rfl⟩, hr⟩

/-- As `ToldActive`, since the world `w₀`. -/
inductive ToldSince (w₀ : ScheduleWorld) (caller : ℕ) (id : String) (w : ScheduleWorld) :
    Bool → Prop
  | session (status : SessionStatus) : Seen w₀ caller id (.session status) w →
      ToldSince w₀ caller id w (status == .inProgress)
  | missing (inputs : Option (List (Option String))) : Seen w₀ caller id .missing w →
      Seen w₀ caller id (.integration inputs) w →
      ToldSince w₀ caller id w (inputs.all fun turnIds ↦ turnIds.any (·.isNone))

theorem ToldSince.since {caller : ℕ} {active : Bool} {w' : ScheduleWorld}
    (h : ToldSince w₀ caller id w active) (hsince : w.Extends w') :
    ToldSince w₀ caller id w' active := by
  rcases h with ⟨status, hseen⟩ | ⟨inputs, hmissing, hseen⟩
  · exact .session status (hseen.since hsince)
  · exact .missing inputs (hmissing.since hsince) (hseen.since hsince)

theorem ToldSince.at_record {caller : ℕ} {active : Bool} {record : Versioned ScheduleState}
    (h : ToldSince w₀ caller id w active) (hw : w.Consistent)
    (hread : w₀.records () = some record) (hfound : w.records () = some record) :
    ToldActive w.ghost.checks caller id record.revision active := by
  rcases h with ⟨status, hseen⟩ | ⟨inputs, hmissing, hseen⟩
  · exact .session status (hseen.at_record hw hread hfound)
  · exact .missing inputs (hmissing.at_record hw hread hfound) (hseen.at_record hw hread hfound)

/-- What is seen now is seen since any time before. -/
theorem seen_now {sight : SessionSight} {caller : ℕ} (hw : w.Consistent) (hsince : w₀.Extends w) :
    Seen w₀ caller id sight ⟨w.records, w.ghost.see caller id sight⟩ := by
  refine ⟨w.ghost.revision, ?_, List.mem_append_right _ List.mem_cons_self⟩
  rw [hw.revision]
  exact hsince.record.1

theorem meets_retrieveSession :
    (scheduleSetting scheduleId).Meets p w₀.Extends (askSchedule (.retrieveSession id))
      (fun a w ↦ w₀.Extends w ∧
        (∀ status, a = .ok status → Seen w₀ p.1 id (.session status) w) ∧
          ∀ error, a = .error (.api error) → error.status = 404 → Seen w₀ p.1 id .missing w)
      fun _ _ ↦ True := by
  refine meets_sight (since_permanent_schedule w₀) fun w x a g hw hsince hanswer ↦ ?_
  simp only [scheduleSurroundings, Option.some.injEq, Prod.mk.injEq] at hanswer
  obtain ⟨hresult, hghost⟩ := hanswer
  rw [hresult] at hghost
  subst hghost
  split
  · next status =>
    exact ⟨.inr ⟨id, _, rfl⟩, fun _ heq ↦ by cases heq; exact seen_now hw hsince, by simp⟩
  · next error =>
    split
    · exact ⟨.inr ⟨id, _, rfl⟩, by simp, fun _ _ _ ↦ seen_now hw hsince⟩
    · next hstatus =>
      refine ⟨.inl rfl, by simp, fun error' heq hstatus' ↦ ?_⟩
      cases heq
      exact absurd hstatus' hstatus
  · next hother =>
    exact ⟨.inl rfl, by simp, fun error heq _ ↦ (hother error (Except.error.inj heq)).elim⟩

theorem meets_integrationInputs (hP : (scheduleSetting scheduleId).Permanent P)
    (hsince : ∀ w, P w → w₀.Extends w) :
    (scheduleSetting scheduleId).Meets p P (askSchedule (.integrationInputs id))
      (fun a w ↦ P w ∧ ∀ inputs, a = .ok inputs → Seen w₀ p.1 id (.integration inputs) w)
      fun _ _ ↦ True := by
  refine meets_sight hP fun w x a g hw hp hanswer ↦ ?_
  simp only [scheduleSurroundings, Option.some.injEq, Prod.mk.injEq] at hanswer
  obtain ⟨hresult, hghost⟩ := hanswer
  rw [hresult] at hghost
  subst hghost
  split
  · exact ⟨.inr ⟨id, _, rfl⟩, fun _ heq ↦ by cases heq; exact seen_now hw (hsince w hp)⟩
  · exact ⟨.inl rfl, by simp⟩

theorem meets_sessionActive :
    (scheduleSetting scheduleId).Meets p w₀.Extends (ScheduleService.active id)
      (fun active w ↦ w₀.Extends w ∧ ToldSince w₀ p.1 id w active) fun _ _ ↦ True := by
  refine Meets.bind meets_retrieveSession fun answer ↦ ?_
  rcases answer with (error | message) | status
  · dsimp only
    split
    · exact meets_raise fun _ _ _ ↦ trivial
    · next hstatus =>
      -- The Session is gone, or was never created: the integration tells which.
      have hmissing : (scheduleSetting scheduleId).Permanent
          fun w ↦ ScheduleWorld.Extends w₀ w ∧ Seen w₀ p.1 id .missing w :=
        fun _ _ _ _ _ _ hguar h ↦ ⟨h.1.trans hguar.1, h.2.since hguar.1⟩
      refine Meets.bind ((meets_integrationInputs hmissing fun _ h ↦ h.1).pre
        fun w _ h ↦ ⟨h.1, h.2.2 error rfl (not_not.mp hstatus)⟩) fun inputs ↦ ?_
      cases inputs with
      | error e => exact meets_raise fun _ _ _ ↦ trivial
      | ok inputs => exact meets_ret fun w _ h ↦ ⟨h.1.1, .missing inputs h.1.2 (h.2 inputs rfl)⟩
  · exact meets_raise fun _ _ _ ↦ trivial
  · exact meets_ret fun w _ h ↦ ⟨h.1, .session status (h.2.1 status rfl)⟩

/-! ## Deciding

The invocation is followed from its read to the write, with what it is told on the way. -/

/-- The decision may be written wherever the record is found as it was read. -/
def MayDecide (scheduleId : String) (caller : ℕ) (scheduledAt : String)
    (record : Versioned ScheduleState) (occurrence : ScheduleOccurrence) (w : ScheduleWorld) :
    Prop :=
  ∀ w' : ScheduleWorld, w'.Consistent → w.Extends w' → w'.records () = some record →
    Decides scheduleId w'.ghost.checks caller scheduledAt record.value record.revision occurrence

theorem meets_overlapping {record : Versioned ScheduleState} :
    (scheduleSetting scheduleId).Meets p w₀.Extends (ScheduleService.overlapping record.value)
      (fun overlapping w ↦ w₀.Extends w ∧
        (overlapping = true → ∃ id, record.value.schedule.configuration.overlap = .skip ∧
          record.value.activeSessionId = some id) ∧
        ∀ id, record.value.schedule.configuration.overlap = .skip →
          record.value.activeSessionId = some id → ToldSince w₀ p.1 id w overlapping)
      fun _ _ ↦ True := by
  unfold ScheduleService.overlapping
  split
  · next hnone => exact meets_ret fun w _ h ↦ ⟨h, by simp, by simp [hnone]⟩
  · next id hactive =>
    split
    · next hskip =>
      refine meets_sessionActive.conseq (fun _ _ h ↦ h) (fun overlapping w _ h ↦ ?_) fun _ _ _ h ↦ h
      refine ⟨h.1, fun _ ↦ ⟨id, hskip, hactive⟩, fun id' _ hactive' ↦ ?_⟩
      obtain rfl := Option.some.inj (hactive.symm.trans hactive')
      exact h.2
    · next hallow =>
      exact meets_ret fun w _ h ↦ ⟨h, by simp, fun _ hskip ↦ absurd hskip hallow⟩

theorem meets_decideOccurrence {invocation : ScheduleInvocation}
    {record : Versioned ScheduleState} (hread : w₀.records () = some record) :
    (scheduleSetting scheduleId).Meets p w₀.Extends
      (ScheduleService.decideOccurrence scheduleId invocation record.value)
      (fun occurrence w ↦ w₀.Extends w ∧
        MayDecide scheduleId p.1 invocation.scheduledAt record occurrence w) fun _ _ ↦ True := by
  refine Meets.bind meets_overlapping fun overlapping ↦ ?_
  cases overlapping with
  | true =>
    refine meets_ret fun w _ ⟨hsince, hskips, htold⟩ ↦ ⟨hsince, fun w' hw' hlater hfound ↦ ?_⟩
    obtain ⟨id, hskip, hactive⟩ := hskips rfl
    exact .skip id hskip hactive
      (((htold id hskip hactive).since hlater).at_record hw' hread hfound)
  | false =>
    have hpermanent : (scheduleSetting scheduleId).Permanent fun w ↦ ScheduleWorld.Extends w₀ w ∧
        ∀ id, record.value.schedule.configuration.overlap = .skip →
          record.value.activeSessionId = some id → ToldSince w₀ p.1 id w false :=
      fun _ _ _ _ _ _ hguar h ↦ ⟨h.1.trans hguar.1, fun id hskip hactive ↦
        (h.2 id hskip hactive).since hguar.1⟩
    have hpin : (scheduleSetting scheduleId).Yields p
        (askSchedule (.runtimePinFor record.value.schedule.configuration.agentId
          record.value.schedule.configuration.runtime)) fun _ ↦ True :=
      yields_askSchedule (by rintro x g a g' ⟨⟩; rfl)
    refine (hpin.seq hpermanent fun answer _ ↦ ?_).pre fun w _ h ↦ ⟨h.1, h.2.2⟩
    cases answer with
    | error e => exact meets_raise fun _ _ _ ↦ trivial
    | ok runtimePin =>
      refine meets_ret fun w _ h ↦ ⟨h.1, fun w' hw' hlater hfound ↦ ?_⟩
      exact .accept runtimePin fun id hskip hactive ↦
        ((h.2 id hskip hactive).since hlater).at_record hw' hread hfound

/-- A decision that is written is the one that stands. -/
theorem meets_saveOccurrence {invocation : ScheduleInvocation} {occurrence : ScheduleOccurrence}
    {record : Versioned ScheduleState} {attempts : ℕ} (hread : w₀.records () = some record)
    (hcall : p.2 = .invoke invocation)
    (hundecided : record.value.lookup invocation.scheduledAt = none)
    (hactive : record.value.schedule.status = .active)
    (hcurrent : invocation.generation = record.value.schedule.generation) :
    (scheduleSetting scheduleId).Meets p
      (fun w ↦ w₀.Extends w ∧
        MayDecide scheduleId p.1 invocation.scheduledAt record occurrence w)
      (ScheduleService.saveOccurrence record invocation.scheduledAt occurrence attempts)
      (fun saved w ↦ saved = true → w.decided invocation.scheduledAt = some occurrence)
      fun _ _ ↦ True := by
  have hpermanent : (scheduleSetting scheduleId).Permanent fun w ↦ ScheduleWorld.Extends w₀ w ∧
      MayDecide scheduleId p.1 invocation.scheduledAt record occurrence w :=
    fun _ _ _ _ _ _ hguar h ↦ ⟨h.1.trans hguar.1, fun w' hw' hlater ↦
      h.2 w' hw' (hguar.1.trans hlater)⟩
  refine Meets.catching (U := fun _ _ ↦ True) ?_ fun error ↦ ?_
  · let Decided : ScheduleWorld → Prop := fun w ↦
      w.decided invocation.scheduledAt = some occurrence
    refine Meets.bind ((meets_commitWrites (R := Decided) hpermanent
      fun w st hw hp h ↦ ?_).conseq (fun _ _ h ↦ h) (fun _ _ _ h ↦ h.2) fun _ _ _ _ ↦ trivial)
        fun _ ↦ meets_ret fun w _ h _ ↦ h
    obtain ⟨hbefore, hafter⟩ := found_schedule hread hp.1 h
    have hdecision := hp.2 w hw (.refl w) hbefore
    refine ⟨steps_of_scheduleChange hw (.decide invocation record occurrence hcall hbefore
      hundecided hactive hcurrent hdecision hafter), ?_⟩
    dsimp only [Decided]
    rw [ScheduleWorld.decided_of_record hafter]
    exact ScheduleState.lookup_decide_self hundecided
  · split
    · exact meets_raise fun _ _ _ ↦ trivial
    · exact meets_ret fun _ _ _ ↦ by simp

/-- What an invocation reports is what was decided. -/
def ScheduleCall.Reports (call : ScheduleCall) (result : ScheduleResult) (w : ScheduleWorld) :
    Prop :=
  ∀ invocation, call = .invoke invocation →
    (∀ sessionId, result = .accepted sessionId → ∃ configuration runtimePin,
      w.decided invocation.scheduledAt = some (.accepted sessionId configuration runtimePin)) ∧
    (result = .rejected "overlap" → w.decided invocation.scheduledAt = some .skipped)

theorem permanent_decided (scheduledAt : String) (occurrence : ScheduleOccurrence) :
    (scheduleSetting scheduleId).Permanent fun w ↦
      ScheduleWorld.decided w scheduledAt = some occurrence :=
  fun _ _ _ _ _ _ hguar h ↦ hguar.1.decided _ _ h

theorem meets_settle {invocation : ScheduleInvocation} {occurrence : ScheduleOccurrence}
    (hcall : p.2 = .invoke invocation) :
    (scheduleSetting scheduleId).Meets p
      (fun w ↦ w.decided invocation.scheduledAt = some occurrence)
      (ScheduleService.settle scheduleId invocation occurrence) p.2.Reports fun _ _ ↦ True := by
  rw [hcall]
  cases occurrence with
  | skipped =>
    refine meets_ret fun w _ h invocation' heq ↦ ?_
    cases heq
    exact ⟨by simp, fun _ ↦ h⟩
  | accepted sessionId configuration runtimePin =>
    have hdecided : (scheduleSetting scheduleId).Permanent fun w ↦
        ScheduleWorld.decided w invocation.scheduledAt =
          some (.accepted sessionId configuration runtimePin) := permanent_decided _ _
    refine Meets.bind (RecordSpec.meets_ask (R := fun _ _ ↦ True) hdecided ?_) fun answer ↦ ?_
    · rintro w x a g hw hd - hanswer
      cases hanswer
      refine ⟨⟨⟨hw.revision, hw.checked, hw.counted, hw.last, fun submission hmem ↦ ?_⟩,
        ⟨.refl _, fun _ _ h ↦ h, List.Subset.refl _⟩, .none rfl⟩, trivial⟩
      rcases List.mem_append.mp hmem with hold | hnew
      · exact hw.submitted submission hold
      · obtain rfl := List.mem_singleton.mp hnew
        exact ⟨sessionId, hd⟩
    · cases answer with
      | error e => exact meets_raise fun _ _ _ ↦ trivial
      | ok _ =>
        refine meets_ret fun w _ h invocation' heq ↦ ?_
        cases heq
        refine ⟨fun sessionId' hresult ↦ ?_, by simp⟩
        cases hresult
        exact ⟨configuration, runtimePin, h.1⟩

theorem meets_invokeAttempts {invocation : ScheduleInvocation} (attempts : ℕ)
    (hcall : p.2 = .invoke invocation) :
    (scheduleSetting scheduleId).Meets p (fun _ ↦ True)
      (ScheduleService.invokeAttempts scheduleId invocation attempts) p.2.Reports
      fun _ _ ↦ True := by
  have hrefused : ∀ reason, reason ≠ "overlap" → (scheduleSetting scheduleId).Meets p
      (fun _ ↦ True) (Prog.ret (.rejected reason) : ScheduleProg ScheduleResult) p.2.Reports
        fun _ _ ↦ True :=
    fun reason hne ↦ meets_ret fun _ _ _ _ _ ↦ ⟨by simp, by simp [hne]⟩
  induction attempts with
  | zero => exact meets_raise fun _ _ _ ↦ trivial
  | succ attempts ih =>
    refine RecordSpec.meets_get stable_true fun w₀ hw₀ _ ↦ ?_
    cases hread : w₀.records () with
    | none => exact (hrefused "schedule_missing" (by simp)).pre fun _ _ _ ↦ trivial
    | some record =>
      dsimp only
      split
      · next previous hprevious =>
        refine (meets_settle hcall).pre fun w _ hsince ↦ hsince.decided _ _ ?_
        rw [ScheduleWorld.decided_of_record hread]
        exact hprevious
      · next hundecided =>
        split
        · exact (hrefused "stale_schedule" (by simp)).pre fun _ _ _ ↦ trivial
        · next hopen =>
          obtain ⟨hactive, hcurrent⟩ := not_or.mp hopen
          refine Meets.bind (meets_decideOccurrence hread) fun occurrence ↦ ?_
          refine Meets.bind (meets_saveOccurrence hread hcall hundecided (not_not.mp hactive)
            (not_not.mp hcurrent)) fun saved ↦ ?_
          cases saved with
          | true => exact (meets_settle hcall).pre fun _ _ h ↦ h rfl
          | false => exact ih.pre fun _ _ _ ↦ trivial

/-! ## Edits -/

theorem yields_createSchedule (configuration : ScheduleConfiguration) :
    (scheduleSetting scheduleId).Yields p (ScheduleService.create configuration)
      fun _ ↦ True := by
  refine (yields_askSchedule (by rintro x g a g' ⟨⟩; rfl)).bind fun valid _ ↦ ?_
  refine (yields_ofExcept (F := fun _ ↦ True) fun _ _ ↦ trivial).bind fun _ _ ↦ ?_
  refine (yields_askSchedule (by rintro x g a g' ⟨⟩; rfl)).bind fun now _ ↦ ?_
  refine Yields.bind (F := fun _ ↦ True) ?_ fun _ _ ↦ yields_ret trivial
  refine RecordSpec.meets_start fun w₀ hw₀ _ ↦ (meets_commitWrites (R := fun _ ↦ True)
    (since_permanent_schedule w₀) fun w st hw _ h ↦ ⟨?_, trivial⟩).conseq (fun _ _ h ↦ h)
      (fun _ _ _ _ ↦ trivial) fun _ _ _ _ ↦ trivial
  have hadmits : (w.records ()).revision = 0 := (Store.commit_eq_some.mp h).1 _ List.mem_cons_self
  have hafter := Store.commit_written h List.mem_cons_self (by simp)
  cases hrecord : w.records () with
  | none => exact steps_of_scheduleChange hw (.create _ hrecord hafter)
  | some record =>
    rw [hrecord] at hadmits
    exact absurd hadmits (hw.counted record hrecord).ne'

theorem yields_require {f : Versioned ScheduleState → ScheduleProg Schedule}
    (h : ∀ w₀ record, w₀.records () = some record → (scheduleSetting scheduleId).Meets p
      (ScheduleWorld.Extends w₀) (f record) (fun _ _ ↦ True) fun _ _ ↦ True) :
    (scheduleSetting scheduleId).Yields p (ScheduleService.require >>= f) fun _ ↦ True :=
  meets_requiredRecord stable_true fun w₀ record _ _ hread ↦ h w₀ record hread

theorem yields_editSchedule {record : Versioned ScheduleState} (hread : w₀.records () = some record)
    (edit : ℕ → Schedule) :
    (scheduleSetting scheduleId).Meets p w₀.Extends
      (if record.value.schedule.status = .deleted then throw (.api notFoundError)
        else do
          let now ← askSchedule .now
          ScheduleService.putSchedule record { record.value with schedule := edit now }
          pure (edit now)) (fun _ _ ↦ True) fun _ _ ↦ True := by
  split
  · exact meets_raise fun _ _ _ ↦ trivial
  · refine (yields_askSchedule (q := .now) (by rintro x g a g' ⟨⟩; rfl)).seq
      (since_permanent_schedule w₀) fun now _ ↦ ?_
    exact Meets.bind (meets_editSchedule hread) fun _ ↦ meets_ret fun _ _ _ ↦ trivial

theorem yields_updateSchedule (configuration : ScheduleConfiguration) :
    (scheduleSetting scheduleId).Yields p (ScheduleService.update configuration)
      fun _ ↦ True := by
  refine (yields_askSchedule (by rintro x g a g' ⟨⟩; rfl)).bind fun valid _ ↦ ?_
  refine (yields_ofExcept (F := fun _ ↦ True) fun _ _ ↦ trivial).bind fun _ _ ↦ ?_
  exact yields_require fun w₀ record hread ↦ yields_editSchedule hread _

theorem yields_setStatus (status : ScheduleStatus) :
    (scheduleSetting scheduleId).Yields p (ScheduleService.setStatus status) fun _ ↦ True :=
  yields_require fun _ _ hread ↦ yields_editSchedule hread _

/-! ## Every run -/

/-- A call that does not invoke. -/
theorem reports_edit {m : ScheduleProg Schedule}
    (h : (scheduleSetting scheduleId).Yields p m fun _ ↦ True)
    (hcall : ∀ invocation, p.2 ≠ .invoke invocation) :
    (scheduleSetting scheduleId).Meets p (fun _ ↦ True) (ScheduleResult.schedule <$> m) p.2.Reports
      fun _ _ ↦ True :=
  Meets.bind h fun _ ↦ meets_ret fun _ _ _ invocation heq ↦ absurd heq (hcall invocation)

theorem meets_scheduleBody (scheduleId : String) (p : ℕ × ScheduleCall) :
    (scheduleSetting scheduleId).Meets p (fun _ ↦ True) (scheduleBody scheduleId p.2) p.2.Reports
      fun _ _ ↦ True := by
  obtain ⟨pid, call⟩ := p
  cases call with
  | create configuration => exact reports_edit (yields_createSchedule configuration) (by simp)
  | update configuration => exact reports_edit (yields_updateSchedule configuration) (by simp)
  | setStatus status => exact reports_edit (yields_setStatus status) (by simp)
  | invoke invocation => exact meets_invokeAttempts 10 rfl

theorem permanent_reports (call : ScheduleCall) (result : ScheduleResult) :
    (scheduleSetting scheduleId).Permanent (call.Reports result) := by
  intro q e w w' _ _ hguar h invocation hcall
  obtain ⟨haccepted, hskipped⟩ := h invocation hcall
  refine ⟨fun sessionId hresult ↦ ?_, fun hresult ↦ hguar.1.decided _ _ (hskipped hresult)⟩
  obtain ⟨configuration, runtimePin, hdecided⟩ := haccepted sessionId hresult
  exact ⟨configuration, runtimePin, hguar.1.decided _ _ hdecided⟩

end

/-- No schedule yet. -/
def unscheduled : ScheduleWorld := ⟨fun _ ↦ none, ⟨0, [], []⟩⟩

theorem consistent_unscheduled : unscheduled.Consistent where
  revision := rfl
  checked _ h := absurd h List.not_mem_nil
  counted _ h := nomatch h
  last _ h := nomatch h
  submitted _ h := absurd h List.not_mem_nil

theorem scheduleService_verified (scheduleId : String) :
    (scheduleSetting scheduleId).Verified unscheduled ScheduleCall.Reports fun _ _ _ ↦ True where
  init := consistent_unscheduled
  body p := (meets_scheduleBody scheduleId p).pre fun _ _ _ ↦ trivial
  post_stable p result := (permanent_reports p.2 result).stable
  fail_stable _ _ := stable_true

abbrev ScheduleConfig : Type :=
  Config ScheduleWorld (RecordEffect Unit ScheduleValue ScheduleAsk)
    (RecordEffect.Answer ScheduleAsk.Answer) ServiceFailure ScheduleResult ScheduleCall

/-- The step decides the due time, and this is what it goes by: a delivery for the generation that
the schedule has, while it is active. -/
structure ScheduleDecision (scheduleId : String) (c : ScheduleConfig) (pid : ℕ)
    (scheduledAt : String) (occurrence : ScheduleOccurrence) : Prop where
  decision : ∃ m invocation record, c.procs pid = some (.invoke invocation, m) ∧
    invocation.scheduledAt = scheduledAt ∧ c.state.records () = some record ∧
    record.value.schedule.status = .active ∧
    invocation.generation = record.value.schedule.generation ∧
    Decides scheduleId c.state.ghost.checks pid scheduledAt record.value record.revision occurrence

structure DecidesOnce (scheduleId : String) (c : ScheduleConfig) : Prop where
  /-- A decision never changes. -/
  fixed : ∀ c', Leads (scheduleService scheduleId) .free c c' → ∀ scheduledAt occurrence,
    c.state.decided scheduledAt = some occurrence →
      c'.state.decided scheduledAt = some occurrence
  decided : ∀ ev c', (scheduleService scheduleId).step c ev = some c' →
    ∀ scheduledAt occurrence, c.state.decided scheduledAt = none →
      c'.state.decided scheduledAt = some occurrence →
        ∃ pid x, ev = .resume pid x ∧ ScheduleDecision scheduleId c pid scheduledAt occurrence
  /-- The Session a decision looks at is that of the last occurrence that was accepted. -/
  last : ∀ record, c.state.records () = some record →
    record.value.activeSessionId = record.value.sessionIds.getLast?
  /-- What is handed over is the snapshot of the decision. -/
  submitted : ∀ submission ∈ c.state.ghost.submitted, ∃ sessionId,
    c.state.decided submission.scheduledAt =
      some (.accepted sessionId submission.configuration submission.runtimePin)
  reported : ∀ pid call result, c.procs pid = some (call, .ret result) →
    call.Reports result c.state

/-- A decision is new only where an invocation decides. -/
theorem decision_of_change {scheduleId : String} {p : ℕ × ScheduleCall} {w w' : ScheduleWorld}
    {scheduledAt : String} {occurrence : ScheduleOccurrence} (h : ScheduleChange scheduleId p w w')
    (hnone : w.decided scheduledAt = none) (hsome : w'.decided scheduledAt = some occurrence) :
    ∃ invocation record, p.2 = .invoke invocation ∧ invocation.scheduledAt = scheduledAt ∧
      w.records () = some record ∧ record.value.schedule.status = .active ∧
      invocation.generation = record.value.schedule.generation ∧
      Decides scheduleId w.ghost.checks p.1 scheduledAt record.value record.revision
        occurrence := by
  rcases h with hsame | ⟨schedule, -, hafter⟩ | ⟨record, schedule, hbefore, hafter⟩ |
    ⟨invocation, record, occurrence', hcall, hbefore, hundecided, hactive, hcurrent, hdecision,
      hafter⟩
  · rw [ScheduleWorld.decided, hsame] at hsome
    exact absurd (hnone.symm.trans hsome) (by simp)
  · rw [ScheduleWorld.decided_of_record hafter] at hsome
    cases hsome
  · rw [ScheduleWorld.decided_of_record hbefore] at hnone
    rw [ScheduleWorld.decided_of_record hafter] at hsome
    exact absurd (hnone.symm.trans hsome) (by simp)
  · rw [ScheduleWorld.decided_of_record hbefore] at hnone
    rw [ScheduleWorld.decided_of_record hafter] at hsome
    by_cases hat : scheduledAt = invocation.scheduledAt
    · subst hat
      rw [ScheduleState.lookup_decide_self hundecided] at hsome
      obtain rfl := Option.some.inj hsome
      exact ⟨invocation, record, hcall, rfl, hbefore, hactive, hcurrent, hdecision⟩
    · rw [ScheduleState.lookup_decide_of_ne hat, hnone] at hsome
      cases hsome

/-- **A due time is decided once**, in every run. -/
theorem schedule_decides_once {scheduleId : String} {c : ScheduleConfig}
    (hc : Reachable (scheduleService scheduleId) .free unscheduled c) :
    DecidesOnce scheduleId c := by
  have hV := scheduleService_verified scheduleId
  have hsound := hV.reachable hc
  have hw : ScheduleWorld.Consistent c.state := hsound.inv
  constructor
  · intro c' hleads scheduledAt occurrence hdecided
    have hext : ScheduleWorld.Extends c.state c'.state :=
      hV.future ScheduleWorld.Extends .refl .trans (fun _ _ _ _ hguar ↦ hguar.1) hsound hleads
    exact hext.decided _ _ hdecided
  · -- An occurrence appears only in the commit that decides it, which is a step of its invocation.
    intro ev c' hstep scheduledAt occurrence hnone hsome
    cases ev with
    | start pid call =>
      obtain ⟨-, hstate, -⟩ := step_start_eq_some hstep
      rw [hstate, hnone] at hsome
      cases hsome
    | resume pid x =>
      obtain ⟨call, e, k, a, hproc, -, -⟩ := step_resume_eq_some hstep
      obtain ⟨-, -, hchange⟩ := hV.resume hsound hproc (permits_free c _) hstep
      obtain ⟨invocation, record, hcall, hdecision⟩ :=
        decision_of_change hchange hnone hsome
      dsimp only at hcall
      subst hcall
      exact ⟨pid, x, rfl, ⟨_, invocation, record, hproc, hdecision⟩⟩
  · exact hw.last
  · exact hw.submitted
  · exact fun pid call result hproc ↦ hsound.safe pid call _ hproc

/-! ## A run

The second occurrence of a schedule that skips overlaps is accepted: the Session of the first one
waits for its user, which counts as not active. -/

def sampleConfiguration : ScheduleConfiguration :=
  ⟨"daily", "rate(1 day)", none, "Check", .skip, "agent", "none", [], none, none, none, none⟩

/-- A schedule that skips what overlaps. Its first occurrence is accepted, and so is the second,
while the Session of the first waits for a required action. Then the schedule is paused. -/
def sampleOverlap : List (Event ScheduleCall (RecordChoice ScheduleChoice)) :=
  [.start 0 (.create sampleConfiguration)] ++
  ([{}, {}, {}] : List ScheduleChoice).map (fun x ↦ .resume 0 ⟨x, .acknowledged⟩) ++
  [.start 1 (.invoke ⟨1, "first"⟩)] ++
  ([{}, {}, {}, {}] : List ScheduleChoice).map (fun x ↦ .resume 1 ⟨x, .acknowledged⟩) ++
  [.start 2 (.invoke ⟨1, "second"⟩)] ++
  ([{}, { status := .requiresAction }, {}, {}, {}] : List ScheduleChoice).map
    (fun x ↦ .resume 2 ⟨x, .acknowledged⟩) ++
  [.start 3 (.setStatus .paused)] ++
  ([{}, {}, {}] : List ScheduleChoice).map fun x ↦ .resume 3 ⟨x, .acknowledged⟩

/-- The first due time is delivered again, for the generation that is not current any more. -/
def sampleRedelivery : List (Event ScheduleCall (RecordChoice ScheduleChoice)) :=
  [.start 4 (.invoke ⟨1, "first"⟩), .resume 4 ⟨{}, .acknowledged⟩, .resume 4 ⟨{}, .acknowledged⟩]

/-- A delivery that has read the schedule before the second occurrence was accepted looks at the
Session of the first one, which is in progress again. Then the third occurrence is decided by the
Session of the second one, which is idle. -/
def sampleEarlier : List (Event ScheduleCall (RecordChoice ScheduleChoice)) :=
  [.start 0 (.create sampleConfiguration)] ++
  ([{}, {}, {}] : List ScheduleChoice).map (fun x ↦ .resume 0 ⟨x, .acknowledged⟩) ++
  [.start 1 (.invoke ⟨1, "first"⟩)] ++
  ([{}, {}, {}, {}] : List ScheduleChoice).map (fun x ↦ .resume 1 ⟨x, .acknowledged⟩) ++
  [.start 2 (.invoke ⟨1, "late"⟩), .resume 2 ⟨{}, .acknowledged⟩] ++
  [.start 3 (.invoke ⟨1, "second"⟩)] ++
  ([{}, { status := .requiresAction }, {}, {}, {}] : List ScheduleChoice).map
    (fun x ↦ .resume 3 ⟨x, .acknowledged⟩) ++
  [.start 4 (.invoke ⟨1, "third"⟩), .resume 4 ⟨{}, .acknowledged⟩,
    .resume 2 ⟨{ status := .inProgress }, .acknowledged⟩] ++
  ([{}, {}, {}, {}] : List ScheduleChoice).map fun x ↦ .resume 4 ⟨x, .acknowledged⟩

/-- An occurrence is accepted beside one that waits for an action, and a delivery of an accepted
occurrence is accepted after its generation. And an occurrence is accepted beside one that is in
progress, once another one has been accepted in between. -/
theorem overlap_and_redelivery_accepted :
    (∃ c₀ c, Reachable (scheduleService "schedule") .free unscheduled c₀ ∧
      Leads (scheduleService "schedule") .free c₀ c ∧
      c₀.outcome 2 = some (.invoke ⟨1, "second"⟩,
        some (.ok (.accepted (integrationSessionId "schedule" "second")))) ∧
      ⟨2, integrationSessionId "schedule" "first", 2, .session .requiresAction⟩ ∈
        c₀.state.ghost.checks ∧
      (c₀.state.records ()).map (fun record ↦ record.value.schedule.generation) = some 2 ∧
      c₀.outcome 4 = none ∧
      c.outcome 4 = some (.invoke ⟨1, "first"⟩,
        some (.ok (.accepted (integrationSessionId "schedule" "first"))))) ∧
    ∃ c, Reachable (scheduleService "schedule") .free unscheduled c ∧
      c.outcome 4 = some (.invoke ⟨1, "third"⟩,
        some (.ok (.accepted (integrationSessionId "schedule" "third")))) ∧
      c.state.ghost.checks =
        [⟨3, integrationSessionId "schedule" "first", 2, .session .requiresAction⟩,
          ⟨2, integrationSessionId "schedule" "first", 3, .session .inProgress⟩,
          ⟨4, integrationSessionId "schedule" "second", 3, .session .idle⟩] := by
  have hfirst : ((scheduleService "schedule").run .free sampleOverlap (.initial unscheduled)).map
      (fun c ↦ c.outcome 2) = some (some (.invoke ⟨1, "second"⟩,
        some (.ok (.accepted (integrationSessionId "schedule" "second"))))) := by decide +kernel
  have hseen : ((scheduleService "schedule").run .free sampleOverlap (.initial unscheduled)).map
      (fun c ↦ (c.state.ghost.checks, (c.state.records ()).map
        fun record ↦ record.value.schedule.generation)) =
      some ([⟨2, integrationSessionId "schedule" "first", 2, .session .requiresAction⟩],
        some 2) := by
    decide +kernel
  have hsecond : (((scheduleService "schedule").run .free sampleOverlap
      (.initial unscheduled)).bind fun c ↦
        ((scheduleService "schedule").run .free sampleRedelivery c).map fun c' ↦ c'.outcome 4) =
      some (some (.invoke ⟨1, "first"⟩,
        some (.ok (.accepted (integrationSessionId "schedule" "first"))))) := by
    decide +kernel
  have hbefore : ((scheduleService "schedule").run .free sampleOverlap (.initial unscheduled)).map
      (fun c ↦ c.outcome 4) = some none := by decide
  obtain ⟨c₀, hc₀, haccepted⟩ := Option.map_eq_some_iff.mp hfirst
  rw [hc₀, Option.map_some, Option.some_inj] at hseen
  rw [hc₀, Option.map_some, Option.some_inj] at hbefore
  rw [hc₀, Option.bind_some] at hsecond
  obtain ⟨c, hc, hafter⟩ := Option.map_eq_some_iff.mp hsecond
  obtain ⟨hchecks, hgeneration⟩ := Prod.mk.inj hseen
  have hthird : ((scheduleService "schedule").run .free sampleEarlier (.initial unscheduled)).map
      (fun c ↦ (c.outcome 4, c.state.ghost.checks)) =
      some (some (.invoke ⟨1, "third"⟩,
        some (.ok (.accepted (integrationSessionId "schedule" "third")))),
        [⟨3, integrationSessionId "schedule" "first", 2, .session .requiresAction⟩,
          ⟨2, integrationSessionId "schedule" "first", 3, .session .inProgress⟩,
          ⟨4, integrationSessionId "schedule" "second", 3, .session .idle⟩]) := by
    decide +kernel
  obtain ⟨c₁, hc₁, hbeside⟩ := Option.map_eq_some_iff.mp hthird
  obtain ⟨hbeside, hbesideChecks⟩ := Prod.mk.inj hbeside
  refine ⟨⟨c₀, c, leads_of_run hc₀, leads_of_run hc, haccepted, ?_, hgeneration, hbefore, hafter⟩,
    c₁, leads_of_run hc₁, hbeside, hbesideChecks⟩
  rw [hchecks]
  exact List.mem_cons_self

theorem sampleOverlap_decided :
    ∃ c, (scheduleService "schedule").run .free sampleOverlap (.initial unscheduled) = some c ∧
      DecidesOnce "schedule" c := by
  have hrun : ((scheduleService "schedule").run .free sampleOverlap
      (.initial unscheduled)).isSome := by decide
  obtain ⟨c, hc⟩ := Option.isSome_iff_exists.mp hrun
  exact ⟨c, hc, schedule_decides_once (leads_of_run hc)⟩

end RatThings
