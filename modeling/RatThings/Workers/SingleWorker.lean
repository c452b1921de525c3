import RatThings.Workers.Service

/-!
# One worker at a time

A Pi Session is executed by one worker after the other, and each worker is a Run. This module proves
that the Runs follow one another, in every run of the callers of the service: a Run is created only
after the ones before it have stopped for good, and after the runtime record has named it.

## The construction

The attempt in the runtime record counts the workers. Its ordinal is raised only by a claim that has
seen the Run of the ordinal before stop, and the Run of an ordinal is created only by a caller that
has marked the attempt as submitting itself. `attemptId` is the id of the Run of an ordinal, and the
keys of the Runs that were created are those of the first ordinals, in their order.

## The invariant

`PiWorld.Coherent` ties the record to the Runs: the attempt in it is that of the last Run or of the
one after it, and the Runs of smaller ordinals have stopped (`PiWorld.Serves`). `PiStep` is what a
step of anyone guarantees: a Run that has ended stays as it is, a closed runtime stays closed, and
what was stopped stays stopped. So everything a caller has seen of the Runs is stable, and only what
it has read of the record may be out of date; a compare-and-swap that succeeds has found the record
that was read.

## Implementation notes

A caller that has marked the attempt may be late: the mark is kept until the Run exists, because a
claim needs a Run that has stopped. This is `MaySubmit`, which no step of anyone ends.
-/

namespace RatThings

open Concurrent Prog Service Setting

namespace RunSessionExecution

/-- The id of the Run of an attempt. -/
def attemptId (sessionId : String) (ordinal : ℕ) : String := idFor (attemptKey sessionId ordinal)

variable {sessionId : String}

theorem attemptKey_injective : Function.Injective (attemptKey sessionId) := by
  intro m n h
  have hdigits : toString m = toString n := by
    simpa only [attemptKey, String.append_right_inj] using h
  exact Nat.repr_injective hdigits

theorem attemptId_injective : Function.Injective (attemptId sessionId) :=
  idFor_injective.comp attemptKey_injective

end RunSessionExecution

open RunSessionExecution

/-! ## What the record says about the Runs

A Run is stopped for the service only when its status is terminal and its last generation was found
to have stopped. One without a generation is never taken to be stopped. -/

/-- The Run has ended, and its last generation has stopped for good. -/
def PiWorld.Stopped (w : PiWorld) (id : String) : Prop :=
  ∃ run generation, w.runs id = some run ∧ run.status = .terminal ∧
    run.generation = some generation ∧ (id, generation) ∈ w.stopped

/-- The attempt is that of the last Run or of the one after it. -/
structure PiWorld.Serves (sessionId : String) (w : PiWorld) (runId : Option String)
    (attempt : RuntimeAttempt) : Prop where
  runId : runId = some (attemptId sessionId attempt.ordinal)
  least : attempt.ordinal ≤ w.created.length
  most : w.created.length ≤ attempt.ordinal + 1
  reserved : attempt.phase = some .reserved → w.created.length = attempt.ordinal
  stopped : ∀ n < attempt.ordinal, w.Stopped (attemptId sessionId n)

structure PiWorld.Supports (sessionId : String) (w : PiWorld) (value : StoredPiRuntime) :
    Prop where
  unclaimed : value.attempt = none → value.closed = true ∧ w.created = []
  attempt : ∀ attempt, value.attempt = some attempt → w.Serves sessionId value.runId attempt

structure PiWorld.Coherent (sessionId : String) (w : PiWorld) : Prop where
  created : w.created = (List.range w.created.length).map (attemptKey sessionId)
  runs : ∀ id, (w.runs id).isSome ↔ ∃ n < w.created.length, id = attemptId sessionId n
  empty : w.runtime = none → w.created = []
  supported : ∀ record, w.runtime = some record → w.Supports sessionId record.value
  counted : ∀ record, w.runtime = some record → 0 < record.revision

/-- The record marks this attempt as being submitted. -/
def StoredPiRuntime.Submits (value : StoredPiRuntime) (ordinal : ℕ) : Prop :=
  ∃ attempt, value.attempt = some attempt ∧ attempt.ordinal = ordinal ∧
    attempt.phase = some .submitting

/-- Submitting the Run of this attempt does no harm: it exists, or it is the next one. -/
def PiWorld.MaySubmit (sessionId : String) (w : PiWorld) (ordinal : ℕ) : Prop :=
  attemptId sessionId ordinal ∈ w.named ∧ (ordinal < w.created.length ∨
    ∃ record, w.runtime = some record ∧ record.value.Submits ordinal)

/-- The runtime is closed. -/
def PiWorld.IsClosed (w : PiWorld) : Prop := w.runtime.any (·.value.closed) = true

structure PiStep (sessionId : String) (w w' : PiWorld) : Prop where
  runtime : w.runtime.Precedes w'.runtime
  closed : w.IsClosed → w'.IsClosed
  submit : ∀ n, w.MaySubmit sessionId n → w'.MaySubmit sessionId n
  ended : ∀ id run, w.runs id = some run → run.status = .terminal → w'.runs id = some run
  stopped : ∀ halted ∈ w.stopped, halted ∈ w'.stopped
  created : w'.created = w.created ∨
    w'.created = w.created ++ [attemptKey sessionId w.created.length] ∧
      attemptId sessionId w.created.length ∈ w.named ∧
      ∀ n < w.created.length, w.Stopped (attemptId sessionId n)

def piSetting (sessionId : String) :
    Setting PiWorld PiEffect PiEffect.Answer ServiceFailure Unit PiCall PiChoice where
  service := piService sessionId
  discipline := .free
  inv := PiWorld.Coherent sessionId
  guar _ _ := PiStep sessionId

section

variable {sessionId : String} {p : ℕ × PiCall} {P : PiWorld → Prop} {w w' : PiWorld}

theorem PiStep.refl (w : PiWorld) : PiStep sessionId w w where
  runtime := .refl _
  closed h := h
  submit _ h := h
  ended _ _ h _ := h
  stopped _ h := h
  created := .inl rfl

theorem PiWorld.Stopped.keep {id : String} (h : w.Stopped id)
    (hended : ∀ id run, w.runs id = some run → run.status = .terminal → w'.runs id = some run)
    (hstopped : ∀ halted ∈ w.stopped, halted ∈ w'.stopped) : w'.Stopped id := by
  obtain ⟨run, generation, hrun, hterminal, hgeneration, hmem⟩ := h
  exact ⟨run, generation, hended id run hrun hterminal, hterminal, hgeneration, hstopped _ hmem⟩

theorem PiStep.stays (h : PiStep sessionId w w') {id : String} (hid : w.Stopped id) :
    w'.Stopped id :=
  hid.keep h.ended h.stopped

theorem PiWorld.Coherent.created_iff (hw : w.Coherent sessionId) (n : ℕ) :
    (w.runs (attemptId sessionId n)).isSome ↔ n < w.created.length := by
  rw [hw.runs]
  constructor
  · rintro ⟨m, hm, h⟩
    rwa [attemptId_injective h]
  · intro hn
    exact ⟨n, hn, rfl⟩

theorem PiWorld.Coherent.lt_of_stopped (hw : w.Coherent sessionId) {n : ℕ}
    (h : w.Stopped (attemptId sessionId n)) : n < w.created.length := by
  obtain ⟨run, -, hrun, -⟩ := h
  exact (hw.created_iff n).mp (by rw [hrun]; rfl)

theorem PiWorld.Serves.keep {runId : Option String} {attempt : RuntimeAttempt}
    (h : w.Serves sessionId runId attempt) (hcreated : w'.created = w.created)
    (hstays : ∀ id, w.Stopped id → w'.Stopped id) : w'.Serves sessionId runId attempt where
  runId := h.runId
  least := hcreated ▸ h.least
  most := hcreated ▸ h.most
  reserved := hcreated ▸ h.reserved
  stopped n hn := hstays _ (h.stopped n hn)

theorem PiWorld.Supports.keep {value : StoredPiRuntime} (h : w.Supports sessionId value)
    (hcreated : w'.created = w.created) (hstays : ∀ id, w.Stopped id → w'.Stopped id) :
    w'.Supports sessionId value where
  unclaimed := hcreated ▸ h.unclaimed
  attempt attempt ha := (h.attempt attempt ha).keep hcreated hstays

/-! ## Changes of the record

Each writer owes these facts for the value that it writes. They speak of the record that it has
read, which is the one that it replaces. -/

/-- What a new value of the record owes to the one before it. -/
structure PiWorld.Changes (sessionId : String) (w : PiWorld) (value : StoredPiRuntime) :
    Prop where
  supports : w.Supports sessionId value
  closed : w.IsClosed → value.closed = true
  submits : ∀ record n, w.runtime = some record → record.value.Submits n →
    n < w.created.length ∨ value.Submits n

/-- The world after a write of the record. -/
def PiWorld.written (w : PiWorld) (revision : ℕ) (value : StoredPiRuntime) : PiWorld :=
  { w with
    runtime := some ⟨revision + 1, value⟩
    named := w.named ++ PiWorld.namedBy value }

theorem PiWorld.Changes.step {value : StoredPiRuntime} (hw : w.Coherent sessionId)
    (h : w.Changes sessionId value) :
    (w.written w.runtime.revision value).Coherent sessionId ∧
      PiStep sessionId w (w.written w.runtime.revision value) := by
  have hput : w.runtime.put w.runtime.revision value =
      some (some ⟨w.runtime.revision + 1, value⟩) :=
    Slot.put_eq_some.mpr ⟨rfl, rfl⟩
  refine ⟨⟨hw.created, hw.runs, fun hnone ↦ ?_, fun record hrecord ↦ ?_, fun record hrecord ↦ ?_⟩,
    ⟨Slot.precedes_of_put hput, fun hclosed ↦ ?_, fun n ⟨hnamed, hn⟩ ↦
      ⟨List.mem_append_left _ hnamed, ?_⟩, fun _ _ hrun _ ↦ hrun, fun _ hmem ↦ hmem, .inl rfl⟩⟩
  · cases hnone
  · obtain rfl := Option.some.inj hrecord
    exact h.supports.keep rfl fun _ hid ↦ hid
  · obtain rfl := Option.some.inj hrecord
    exact Nat.succ_pos _
  · exact h.closed hclosed
  · rcases hn with hlt | ⟨record, hrecord, hsubmits⟩
    · exact .inl hlt
    · exact (h.submits record n hrecord hsubmits).imp_right fun hvalue ↦ ⟨_, rfl, hvalue⟩

/-- A new value that leaves the attempt as it was, as far as its ordinal and its phase go. -/
theorem PiWorld.Supports.changes {record : Versioned StoredPiRuntime}
    {value : StoredPiRuntime} (hrecord : w.runtime = some record)
    (h : w.Supports sessionId record.value) (hrunId : value.runId = record.value.runId)
    (hclosed : record.value.closed = true → value.closed = true)
    (hattempt : value.attempt.map (fun a ↦ (a.ordinal, a.phase)) =
      record.value.attempt.map fun a ↦ (a.ordinal, a.phase)) : w.Changes sessionId value where
  supports := by
    constructor
    · intro hnone
      rw [hnone, Option.map_none, eq_comm, Option.map_eq_none_iff] at hattempt
      exact (h.unclaimed hattempt).imp_left hclosed
    · intro attempt ha
      rw [ha, Option.map_some, eq_comm, Option.map_eq_some_iff] at hattempt
      obtain ⟨old, hold, hsame⟩ := hattempt
      obtain ⟨hordinal, hphase⟩ := Prod.mk.inj hsame
      have hserves := h.attempt old hold
      refine ⟨?_, ?_, ?_, fun hreserved ↦ ?_, fun n hn ↦ hserves.stopped n (hordinal ▸ hn)⟩
      · rw [hrunId, ← hordinal]
        exact hserves.runId
      · exact hordinal ▸ hserves.least
      · exact hordinal ▸ hserves.most
      · exact hordinal ▸ hserves.reserved (hphase.trans hreserved)
  closed hw := by
    rw [PiWorld.IsClosed, hrecord] at hw
    exact hclosed hw
  submits old n hold := by
    obtain rfl := Option.some.inj (hrecord.symm.trans hold)
    rintro ⟨attempt, ha, rfl, hphase⟩
    rw [ha, Option.map_some, Option.map_eq_some_iff] at hattempt
    obtain ⟨new, hnew, hsame⟩ := hattempt
    obtain ⟨hordinal, hnewPhase⟩ := Prod.mk.inj hsame
    exact .inr ⟨new, hnew, hordinal, hnewPhase.trans hphase⟩

/-! ## Assertions that last -/

theorem permanent_maySubmit (n : ℕ) :
    (piSetting sessionId).Permanent fun w ↦ w.MaySubmit sessionId n :=
  fun _ _ _ _ _ _ hstep h ↦ hstep.submit n h

theorem permanent_isClosed : (piSetting sessionId).Permanent PiWorld.IsClosed :=
  fun _ _ _ _ _ _ hstep h ↦ hstep.closed h

theorem permanent_stopped (id : String) :
    (piSetting sessionId).Permanent fun w ↦ w.Stopped id :=
  fun _ _ _ _ _ _ hstep h ↦ hstep.stays h

/-- A Run that was seen to have ended. -/
theorem permanent_ended {id : String} {run : PiRun} (hrun : run.status = .terminal) :
    (piSetting sessionId).Permanent fun w ↦ w.runs id = some run :=
  fun _ _ _ _ _ _ hstep h ↦ hstep.ended id run h hrun

/-- The record was read, and what it says could be so. -/
def RuntimeSeen (sessionId : String) (slot : Slot StoredPiRuntime) (w : PiWorld) : Prop :=
  slot.Precedes w.runtime ∧ ∀ record, slot = some record →
    (record.value.attempt = none → record.value.closed = true) ∧
      ∀ attempt, record.value.attempt = some attempt →
        record.value.runId = some (attemptId sessionId attempt.ordinal)

theorem permanent_seen (slot : Slot StoredPiRuntime) :
    (piSetting sessionId).Permanent (RuntimeSeen sessionId slot) :=
  fun _ _ _ _ _ _ hstep h ↦ ⟨h.1.trans hstep.runtime, h.2⟩

theorem PiWorld.Coherent.seen (hw : w.Coherent sessionId) : RuntimeSeen sessionId w.runtime w := by
  refine ⟨.refl _, fun record hrecord ↦ ?_⟩
  have hsupports := hw.supported record hrecord
  exact ⟨fun hnone ↦ (hsupports.unclaimed hnone).1, fun a ha ↦ (hsupports.attempt a ha).runId⟩

/-! ## Requests -/

/-- Requests that change neither the record nor a Run. -/
def PiEffect.Reads : PiEffect → Prop
  | .putRuntime .. | .commitRuntime .. | .submit .. | .cancelRun _ | .advanceRun .. | .stopRun .. =>
    False
  | _ => True

theorem read_of_handlePi (pid : ℕ) {e : PiEffect} {x : PiChoice} {a : e.Answer} (he : e.Reads)
    (h : handlePi pid e x w = some (a, w')) : w' = w := by
  cases e <;> first
    | exact he.elim
    | (simp only [handlePi, Option.some.injEq, Prod.mk.injEq] at h
       exact h.2.symm)
    | (simp only [handlePi] at h
       split at h
       · cases h
       · cases h
         rfl)

theorem meets_readPi {e : PiEffect} {Q : e.Answer → PiWorld → Prop} (he : e.Reads)
    (hP : (piSetting sessionId).Stable p P)
    (hQ : ∀ w x a, w.Coherent sessionId → P w → handlePi p.1 e x w = some (a, w) → Q a w) :
    (piSetting sessionId).Meets p P (ask e) Q fun _ _ ↦ True := by
  refine meets_perform hP fun w x a w' hw hp _ ha ↦ ?_
  obtain rfl := read_of_handlePi p.1 he ha
  exact ⟨hw, .refl w', hQ w' x a hw hp ha⟩

theorem yields_readPi {e : PiEffect} (he : e.Reads) :
    (piSetting sessionId).Yields p (ask e) fun _ ↦ True :=
  meets_readPi he stable_true fun _ _ _ _ _ _ ↦ trivial

theorem meets_triedPi {α : Type} {m : PiProg (Except ServiceFailure α)} {Q : α → PiWorld → Prop}
    (h : (piSetting sessionId).Meets p P m (fun r w ↦ ∀ a, r = .ok a → Q a w) fun _ _ ↦ True) :
    (piSetting sessionId).Meets p P (tried m) Q fun _ _ ↦ True := by
  refine Meets.bind h fun r ↦ ?_
  cases r with
  | ok a => exact meets_ret fun _ _ hq ↦ hq a rfl
  | error failure => exact meets_raise fun _ _ _ ↦ trivial

theorem yields_tried {α : Type} {m : PiProg (Except ServiceFailure α)}
    (h : (piSetting sessionId).Yields p m fun _ ↦ True) :
    (piSetting sessionId).Yields p (tried m) fun _ ↦ True :=
  meets_triedPi (h.conseq (fun _ _ hp ↦ hp) (fun _ _ _ _ _ _ ↦ trivial) fun _ _ _ ht ↦ ht)

theorem meets_stored {m : PiProg Reply} {Q : PiWorld → Prop}
    (h : (piSetting sessionId).Meets p P m (fun r w ↦ r = .done → Q w) fun _ _ ↦ True) :
    (piSetting sessionId).Meets p P (stored m) (fun _ ↦ Q) fun _ _ ↦ True := by
  refine Meets.bind h fun r ↦ ?_
  cases r with
  | done => exact meets_ret fun _ _ hq ↦ hq rfl
  | conflict => exact meets_raise fun _ _ _ ↦ trivial
  | unknown => exact meets_raise fun _ _ _ ↦ trivial

/-- A write of the record finds what the caller has read. -/
theorem PiWorld.Coherent.settle {slot : Slot StoredPiRuntime} {value : StoredPiRuntime}
    {fate : Fate} {r : Reply} {Q : PiWorld → Prop} (hw : w.Coherent sessionId)
    (hslot : slot.Precedes w.runtime)
    (h : w.runtime = slot → w.Changes sessionId value ∧ Q (w.written slot.revision value))
    (ha : fate.settle (w.putRuntime slot.revision value) w = (r, w')) :
    w'.Coherent sessionId ∧ PiStep sessionId w w' ∧ (r = .done → Q w') := by
  rcases Fate.settle_cases ha with ⟨hnext, -⟩ | ⟨rfl, hne⟩
  · obtain ⟨slot', hput, rfl⟩ := Option.map_eq_some_iff.mp hnext
    obtain ⟨hfound, rfl⟩ := Slot.Precedes.eq_of_put hslot hput
    obtain ⟨hchanges, hq⟩ := h hfound
    obtain ⟨hw', hstep⟩ := hchanges.step hw
    rw [hfound] at hw' hstep
    exact ⟨hw', hstep, fun _ ↦ hq⟩
  · exact ⟨hw, .refl _, fun hdone ↦ absurd hdone hne⟩

theorem meets_putRuntime (slot : Slot StoredPiRuntime) {value : StoredPiRuntime}
    {Q : PiWorld → Prop} (hP : (piSetting sessionId).Stable p P)
    (hslot : ∀ w, P w → slot.Precedes w.runtime)
    (h : ∀ w, w.Coherent sessionId → P w → w.runtime = slot →
      w.Changes sessionId value ∧ Q (w.written slot.revision value)) :
    (piSetting sessionId).Meets p P (ask (.putRuntime slot.revision value))
      (fun r w ↦ r = .done → Q w) fun _ _ ↦ True :=
  meets_perform hP fun w _ _ _ hw hp _ ha ↦
    hw.settle (hslot w hp) (h w hw hp) (Option.some.inj ha)

theorem meets_commitRuntime (slot : Slot StoredPiRuntime) {value : StoredPiRuntime}
    {failedTurns : List String} {Q : PiWorld → Prop} (hP : (piSetting sessionId).Stable p P)
    (hslot : ∀ w, P w → slot.Precedes w.runtime)
    (h : ∀ w, w.Coherent sessionId → P w → w.runtime = slot →
      w.Changes sessionId value ∧ Q (w.written slot.revision value)) :
    (piSetting sessionId).Meets p P (ask (.commitRuntime slot.revision value failedTurns))
      (fun r w ↦ r = .done → Q w) fun _ _ ↦ True :=
  meets_perform hP fun w _ _ _ hw hp _ ha ↦
    hw.settle (hslot w hp) (h w hw hp) (Option.some.inj ha)

theorem meets_getRuntime {Q : Slot StoredPiRuntime → PiWorld → Prop}
    (hP : (piSetting sessionId).Stable p P)
    (hQ : ∀ w, w.Coherent sessionId → P w → RuntimeSeen sessionId w.runtime w → Q w.runtime w) :
    (piSetting sessionId).Meets p P (ask .getRuntime) Q fun _ _ ↦ True := by
  refine meets_readPi trivial hP fun w x a hw hp ha ↦ ?_
  obtain rfl : w.runtime = a := congrArg Prod.fst (Option.some.inj ha)
  exact hQ w hw hp hw.seen

/-- The Run that is read exists, or did when it was read. -/
theorem meets_runOf {id : Option String} (hP : (piSetting sessionId).Permanent P) :
    (piSetting sessionId).Meets p P (runOf id)
      (fun found w ↦ P w ∧ ∀ run, found = some run → ∃ runId, id = some runId ∧
        (run.status = .terminal → w.runs runId = some run)) fun _ _ ↦ True := by
  cases id with
  | none => exact meets_ret fun _ _ hp ↦ ⟨hp, fun _ h ↦ nomatch h⟩
  | some id =>
    refine meets_triedPi (meets_readPi trivial hP.stable fun w x a hw hp ha found hfound ↦ ⟨hp, ?_⟩)
    rintro run rfl
    refine ⟨id, rfl, fun _ ↦ ?_⟩
    have hanswer : x.result (if x.hidden then none else w.runs id) = .ok (some run) :=
      (congrArg Prod.fst (Option.some.inj ha)).trans hfound
    unfold PiChoice.result at hanswer
    split at hanswer
    · cases hanswer
    · have hvisible := Except.ok.inj hanswer
      split at hvisible
      · cases hvisible
      · exact hvisible

/-! ## Launching

The mark comes before the submission, and the submission creates the Run of the ordinal that was
marked. A caller that was overtaken after its mark submits a Run that exists, which does nothing. -/

theorem StoredPiRuntime.ordinal_of_submits {value : StoredPiRuntime}
    {attempt : RuntimeAttempt} {n : ℕ}
    (ha : value.attempt = some attempt) (h : value.Submits n) : attempt.ordinal = n := by
  obtain ⟨found, hfound, rfl, -⟩ := h
  rw [Option.some.inj (ha.symm.trans hfound)]

/-- The attempt that may be claimed on top of this record. -/
inductive Claimable (sessionId : String) (w : PiWorld) : Slot StoredPiRuntime → ℕ → Prop
  | first : Claimable sessionId w none 0
  | next {record : Versioned StoredPiRuntime} {attempt : RuntimeAttempt} :
      record.value.attempt = some attempt → w.Stopped (attemptId sessionId attempt.ordinal) →
        Claimable sessionId w (some record) (attempt.ordinal + 1)

theorem permanent_claimable (slot : Slot StoredPiRuntime) (n : ℕ) :
    (piSetting sessionId).Permanent fun w ↦ Claimable sessionId w slot n := by
  rintro q e w w' _ _ hstep (_ | ⟨hattempt, hstopped⟩)
  · exact .first
  · exact .next hattempt (hstep.stays hstopped)

/-- The workers before the claimed one have all stopped, and it has no Run itself. -/
theorem PiWorld.Coherent.claimed (hw : w.Coherent sessionId) {n : ℕ}
    (h : Claimable sessionId w w.runtime n) :
    w.created.length = n ∧ ∀ m < n, w.Stopped (attemptId sessionId m) := by
  generalize hslot : w.runtime = slot at h
  rcases h with _ | @⟨record, attempt, hattempt, hstopped⟩
  · rw [hw.empty hslot]
    exact ⟨rfl, fun m hm ↦ absurd hm (Nat.not_lt_zero m)⟩
  · have hserves := (hw.supported record hslot).attempt attempt hattempt
    have hlast := hw.lt_of_stopped hstopped
    constructor
    · exact le_antisymm hserves.most hlast
    · intro m hm
      rcases Nat.lt_succ_iff_lt_or_eq.mp hm with hlt | rfl
      · exact hserves.stopped m hlt
      · exact hstopped

theorem PiWorld.Coherent.changes_claim (hw : w.Coherent sessionId) {n : ℕ}
    {attempt : RuntimeAttempt}
    {value : StoredPiRuntime} (h : Claimable sessionId w w.runtime n) (hopen : ¬w.IsClosed)
    (hordinal : attempt.ordinal = n) (hrunId : value.runId = some (attemptId sessionId n))
    (hattempt : value.attempt = some attempt) : w.Changes sessionId value := by
  obtain ⟨hlength, hstopped⟩ := hw.claimed h
  subst hordinal
  refine ⟨⟨fun hnone ↦ ?_, fun a ha ↦ ?_⟩, fun hclosed ↦ absurd hclosed hopen,
    fun record m hrecord hsubmits ↦ ?_⟩
  · rw [hattempt] at hnone
    cases hnone
  · obtain rfl := Option.some.inj (hattempt.symm.trans ha)
    exact ⟨hrunId, hlength.ge, by omega, fun _ ↦ hlength, hstopped⟩
  · -- The Run that was being submitted has stopped in the meantime, so it exists.
    left
    rw [hrecord] at h
    generalize attempt.ordinal = n at h hlength
    rcases h with _ | @⟨_, old, hold, -⟩
    rw [hlength, ← StoredPiRuntime.ordinal_of_submits hold hsubmits]
    exact Nat.lt_succ_self _

theorem meets_claim {runtime : Slot StoredPiRuntime} {n : ℕ} {attempt : RuntimeAttempt}
    (hordinal : attempt.ordinal = n) :
    (piSetting sessionId).Meets p
      (fun w ↦ RuntimeSeen sessionId runtime w ∧ Claimable sessionId w runtime n)
      (RunSessionExecution.claim runtime (attemptId sessionId n) (some attempt)) (fun _ _ ↦ True)
        fun _ _ ↦ True := by
  unfold RunSessionExecution.claim
  split
  · exact meets_raise fun _ _ _ ↦ trivial
  next hopen =>
    refine meets_stored ((meets_putRuntime runtime (Q := fun _ ↦ True)
      ((permanent_seen runtime).stable.and (permanent_claimable runtime n).stable)
      (fun w h ↦ h.1.1) fun w hw h hfound ↦ ⟨?_, trivial⟩))
    subst hfound
    exact hw.changes_claim h.2 hopen hordinal rfl rfl

theorem PiWorld.Serves.changes_mark {record : Versioned StoredPiRuntime} {attempt : RuntimeAttempt}
    (hrecord : w.runtime = some record) (hattempt : record.value.attempt = some attempt)
    (h : w.Serves sessionId record.value.runId attempt) :
    w.Changes sessionId
      { record.value with
        attempt := some { attempt with phase := some .submitting } } where
  supports := by
    constructor
    · intro hnone
      cases hnone
    · intro marked hmarked
      obtain rfl := Option.some.inj hmarked
      exact ⟨h.runId, h.least, h.most, (fun hreserved ↦ nomatch hreserved), h.stopped⟩
  closed hw := by
    rw [PiWorld.IsClosed, hrecord] at hw
    exact hw
  submits old n hold hsubmits := by
    obtain rfl := Option.some.inj (hrecord.symm.trans hold)
    have hordinal := StoredPiRuntime.ordinal_of_submits hattempt hsubmits
    exact .inr ⟨_, rfl, hordinal, rfl⟩

theorem meets_markSubmitting (n : ℕ) :
    (piSetting sessionId).Meets p (fun _ ↦ True) (markSubmitting (attemptId sessionId n))
      (fun _ w ↦ w.MaySubmit sessionId n) fun _ _ ↦ True := by
  refine Meets.bind (meets_getRuntime (Q := RuntimeSeen sessionId) stable_true
    fun _ _ _ hseen ↦ hseen)
    fun slot ↦ ?_
  cases slot with
  | none => exact meets_raise fun _ _ _ ↦ trivial
  | some claimed =>
    dsimp only
    split
    · exact meets_raise fun _ _ _ ↦ trivial
    next attempt hattempt =>
      split
      · exact meets_raise fun _ _ _ ↦ trivial
      next hown =>
        refine meets_stored (meets_putRuntime (some claimed) (permanent_seen _).stable
          (fun w hseen ↦ hseen.1) fun w hw hseen hfound ↦ ?_)
        have hserves := (hw.supported claimed hfound).attempt attempt hattempt
        have hrunId : claimed.value.runId = some (attemptId sessionId n) := by
          simpa using fun h ↦ hown (.inr h)
        have hordinal : attempt.ordinal = n :=
          attemptId_injective (Option.some.inj (hserves.runId.symm.trans hrunId))
        refine ⟨hserves.changes_mark hfound hattempt, List.mem_append_right _ ?_,
          .inr ⟨_, rfl, _, rfl, hordinal, rfl⟩⟩
        simp [PiWorld.namedBy, hrunId]

theorem PiWorld.done_cases {x : PiChoice} {next : PiWorld} {a : Except ServiceFailure Unit}
    (h : w.done x next = (a, w')) : w' = next ∨ w' = w := by
  unfold PiWorld.done at h
  split at h
  · next hsettle =>
    obtain rfl := congrArg Prod.snd h
    exact (Fate.settle_cases hsettle).imp (fun hnext ↦ (Option.some.inj hnext.1).symm) And.left
  · next hsettle =>
    obtain rfl := congrArg Prod.snd h
    exact (Fate.settle_cases hsettle).imp (fun hnext ↦ (Option.some.inj hnext.1).symm) And.left

/-- The Run that may be submitted, and does not exist yet, is the next one. -/
theorem PiWorld.Coherent.next_of_maySubmit (hw : w.Coherent sessionId) {n : ℕ}
    (h : w.MaySubmit sessionId n) (hnew : w.runs (attemptId sessionId n) = none) :
    w.created.length = n ∧ ∃ record attempt, w.runtime = some record ∧
      record.value.attempt = some attempt ∧ attempt.ordinal = n ∧
        attempt.phase = some .submitting := by
  have hle : w.created.length ≤ n := by
    rw [← Nat.not_lt, ← hw.created_iff, hnew]
    exact Bool.false_ne_true
  rcases h.2 with hlt | ⟨record, hrecord, attempt, hattempt, rfl, hphase⟩
  · exact absurd hlt (Nat.not_lt.mpr hle)
  · have hserves := (hw.supported record hrecord).attempt attempt hattempt
    exact ⟨le_antisymm hle hserves.least, record, attempt, hrecord, hattempt, rfl, hphase⟩

theorem PiWorld.runs_create {n : ℕ} {turnId : String}
    (hnew : w.runs (attemptId sessionId n) = none) {id : String} {run : PiRun}
    (hrun : w.runs id = some run) :
    (w.create (attemptKey sessionId n) turnId).runs id = some run := by
  refine (w.create_of_ne turnId ?_).trans hrun
  rintro rfl
  rw [attemptId, hrun] at hnew
  cases hnew

theorem PiWorld.Coherent.runs_create (hw : w.Coherent sessionId) {turnId id : String} :
    ((w.create (attemptKey sessionId w.created.length) turnId).runs id).isSome ↔
      ∃ m < w.created.length + 1, id = attemptId sessionId m := by
  by_cases hid : id = attemptId sessionId w.created.length
  · subst hid
    rw [attemptId, PiWorld.create_self]
    exact ⟨fun _ ↦ ⟨w.created.length, Nat.lt_succ_self _, rfl⟩, fun _ ↦ rfl⟩
  · rw [w.create_of_ne turnId hid, hw.runs]
    constructor
    · rintro ⟨m, hm, rfl⟩
      exact ⟨m, by omega, rfl⟩
    · rintro ⟨m, hm, rfl⟩
      have hne : m ≠ w.created.length := fun hmn ↦ hid (congrArg (attemptId sessionId) hmn)
      exact ⟨m, by omega, rfl⟩

theorem PiWorld.Serves.create {n : ℕ} {turnId : String} {runId : Option String}
    {attempt : RuntimeAttempt} (h : w.Serves sessionId runId attempt)
    (hnew : w.runs (attemptId sessionId n) = none) (hlength : w.created.length = attempt.ordinal)
    (hphase : attempt.phase = some .submitting) :
    (w.create (attemptKey sessionId n) turnId).Serves sessionId runId attempt where
  runId := h.runId
  least := by
    rw [PiWorld.length_create]
    exact h.least.trans (Nat.le_succ _)
  most := by rw [PiWorld.length_create, hlength]
  reserved hreserved := by
    rw [hphase] at hreserved
    cases hreserved
  stopped m hm := by
    refine (h.stopped m hm).keep (fun id run hrun _ ↦ ?_) fun _ hmem ↦ hmem
    exact PiWorld.runs_create hnew hrun

theorem PiWorld.Coherent.submit (hw : w.Coherent sessionId) {n : ℕ} (turnId : String)
    (h : w.MaySubmit sessionId n) :
    (w.submit (attemptKey sessionId n) turnId).Coherent sessionId ∧
      PiStep sessionId w (w.submit (attemptKey sessionId n) turnId) := by
  unfold PiWorld.submit
  split
  · exact ⟨hw, .refl w⟩
  next hnew =>
    obtain ⟨hlength, record, attempt, hrecord, hattempt, rfl, hphase⟩ := hw.next_of_maySubmit h hnew
    have hserves := (hw.supported record hrecord).attempt attempt hattempt
    rw [← hlength] at hnew h ⊢
    constructor
    · refine ⟨?_, fun id ↦ ?_, fun hnone ↦ ?_, fun found hfound ↦ ?_, hw.counted⟩
      · rw [PiWorld.length_create, PiWorld.created_create, List.range_succ, List.map_append,
          ← hw.created]
        rfl
      · rw [PiWorld.length_create]
        exact hw.runs_create
      · cases hrecord.symm.trans hnone
      · obtain rfl := Option.some.inj (hrecord.symm.trans hfound)
        refine ⟨fun hnone ↦ ?_, fun a ha ↦ ?_⟩
        · cases hattempt.symm.trans hnone
        · obtain rfl := Option.some.inj (hattempt.symm.trans ha)
          exact hserves.create hnew hlength hphase
    · constructor
      · rw [PiWorld.runtime_create]
        exact .refl _
      · rw [PiWorld.IsClosed, PiWorld.IsClosed, PiWorld.runtime_create]
        exact id
      · intro m hm
        rw [PiWorld.MaySubmit, PiWorld.named_create, PiWorld.runtime_create, PiWorld.length_create]
        exact hm.imp_right (.imp_left Nat.lt_succ_of_lt)
      · intro id run hrun _
        exact PiWorld.runs_create hnew hrun
      · rw [PiWorld.stopped_create]
        exact fun _ hmem ↦ hmem
      · right
        rw [PiWorld.created_create]
        exact ⟨rfl, h.1, fun m hm ↦ hserves.stopped m (hlength ▸ hm)⟩

theorem meets_submit (n : ℕ) (turnId : String) :
    (piSetting sessionId).Meets p (fun w ↦ w.MaySubmit sessionId n)
      (tried (ask (.submit (attemptKey sessionId n) turnId))) (fun _ _ ↦ True) fun _ _ ↦ True := by
  refine meets_triedPi (meets_perform (permanent_maySubmit n).stable fun w x a w' hw hmay _ ha ↦ ?_)
  rcases PiWorld.done_cases (Option.some.inj ha) with rfl | rfl
  · obtain ⟨hw', hstep⟩ := hw.submit turnId hmay
    exact ⟨hw', hstep, fun _ _ ↦ trivial⟩
  · exact ⟨hw, .refl _, fun _ _ ↦ trivial⟩

theorem launch_pi {bootstrap hosted : Bool} {runtime : Slot StoredPiRuntime} {n : ℕ}
    {turnId : String} :
    launch true bootstrap hosted runtime n (attemptKey sessionId n) turnId = (do
      tried (ask (.prepareLaunch turnId (attemptKey sessionId n) bootstrap))
      reserve true runtime n (attemptId sessionId n) turnId
      attachManaged hosted (attemptId sessionId n)
      markSubmitting (attemptId sessionId n)
      tried (ask (.submit (attemptKey sessionId n) turnId))) := rfl

theorem meets_launch {runtime : Slot StoredPiRuntime} {n : ℕ} {bootstrap hosted : Bool}
    {turnId : String}
    (hclaimable : ∀ w, P w → currentRunId runtime ≠ some (attemptId sessionId n) →
      RuntimeSeen sessionId runtime w ∧ Claimable sessionId w runtime n)
    (hP : (piSetting sessionId).Permanent P) :
    (piSetting sessionId).Meets p P
      (launch true bootstrap hosted runtime n (attemptKey sessionId n) turnId)
      (fun _ _ ↦ True) fun _ _ ↦ True := by
  have hprepare : (piSetting sessionId).Yields p
      (tried (ask (.prepareLaunch turnId (attemptKey sessionId n) bootstrap))) fun _ ↦ True :=
    yields_tried (yields_readPi trivial)
  rw [launch_pi]
  refine hprepare.seq hP fun _ _ ↦ ?_
  refine Meets.bind (M := fun _ _ ↦ True) ?_ fun _ ↦ ?_
  · simp only [reserve, ↓reduceIte]
    split
    · exact meets_ret fun _ _ _ ↦ trivial
    next hother =>
      have hordinal : (reservation runtime n turnId).ordinal = n := rfl
      exact (meets_claim hordinal).pre fun w _ hp ↦ hclaimable w hp hother
  refine Meets.bind (M := fun _ _ ↦ True) ?_ fun _ ↦ ?_
  · unfold attachManaged
    split
    · exact yields_tried (yields_readPi trivial)
    · exact meets_ret fun _ _ _ ↦ trivial
  · -- The attempt is marked by this caller itself, whoever claimed it.
    exact (meets_markSubmitting n).bind fun _ ↦ meets_submit n turnId

/-- Evidence that a Run has stopped for good. -/
theorem meets_requireStoppedWorker (id : String) {run : PiRun}
    (hterminal : run.status = .terminal) :
    (piSetting sessionId).Meets p (fun w ↦ w.runs id = some run) (requireStopped (some id) run)
      (fun _ w ↦ w.Stopped id) fun _ _ ↦ True := by
  unfold requireStopped
  split
  · exact meets_raise fun _ _ _ ↦ trivial
  next generation hgeneration =>
    refine Meets.bind (M := fun proof w ↦ proof = true → w.Stopped id)
      (meets_triedPi (meets_readPi trivial (permanent_ended hterminal).stable
        fun w x a hw hrun ha proof hproof hstopped ↦ ?_)) fun proof ↦ ?_
    · subst hstopped
      have hanswer : x.result (x.flag && decide ((id, generation) ∈ w.stopped)) = .ok true :=
        (congrArg Prod.fst (Option.some.inj ha)).trans hproof
      unfold PiChoice.result at hanswer
      split at hanswer
      · cases hanswer
      · have hmem := (Bool.and_eq_true_iff.mp (Except.ok.inj hanswer)).2
        exact ⟨run, generation, hrun, hterminal, hgeneration, of_decide_eq_true hmem⟩
    · cases proof with
      | true => exact meets_ret fun _ _ h ↦ h rfl
      | false => exact meets_raise fun _ _ _ ↦ trivial

/-- The record as it was read and the Run that was found under its id. -/
def Ended (sessionId : String) (runtime : Slot StoredPiRuntime) (ended : Option PiRun)
    (w : PiWorld) : Prop :=
  RuntimeSeen sessionId runtime w ∧ ∀ run, ended = some run →
    run.status = .terminal ∧ ∃ id, currentRunId runtime = some id ∧ w.runs id = some run

theorem permanent_endedRun (runtime : Slot StoredPiRuntime) (ended : Option PiRun) :
    (piSetting sessionId).Permanent (Ended sessionId runtime ended) := by
  intro q e w w' hw hw' hstep h
  refine ⟨permanent_seen runtime hw hw' hstep h.1, fun run hrun ↦ ?_⟩
  obtain ⟨hterminal, id, hid, hfound⟩ := h.2 run hrun
  exact ⟨hterminal, id, hid, hstep.ended id run hfound hterminal⟩

/-- An open record has an attempt, and the Run of the record is that of the attempt. -/
theorem RuntimeSeen.attempt {record : Versioned StoredPiRuntime}
    (h : RuntimeSeen sessionId (some record) w) (hopen : record.value.closed = false) :
    ∃ attempt, record.value.attempt = some attempt ∧
      record.value.runId = some (attemptId sessionId attempt.ordinal) := by
  obtain ⟨hclosed, hrunId⟩ := h.2 record rfl
  cases hattempt : record.value.attempt with
  | none => rw [hclosed hattempt] at hopen; cases hopen
  | some attempt => exact ⟨attempt, rfl, hrunId attempt hattempt⟩

theorem meets_replaceRun {runtime : Slot StoredPiRuntime} (ended : Option PiRun)
    {bootstrap hosted : Bool} {turnId : String} (hopen : runtime.any (·.value.closed) = false) :
    (piSetting sessionId).Meets p (Ended sessionId runtime ended)
      (replaceRun sessionId true bootstrap hosted runtime ended turnId) (fun _ _ ↦ True)
      fun _ _ ↦ True := by
  cases ended with
  | none =>
    simp only [replaceRun]
    split
    · exact meets_raise fun _ _ _ ↦ trivial
    next hreserved =>
      refine meets_launch (fun w h hother ↦ ⟨h.1, ?_⟩) (permanent_endedRun runtime none)
      cases runtime with
      | none => exact .first
      | some record =>
        -- A reserved attempt has been claimed already.
        obtain ⟨attempt, hattempt, hrunId⟩ := h.1.attempt hopen
        have hordinal : ordinalOf (some record) = attempt.ordinal := by simp [ordinalOf, hattempt]
        exact absurd (hordinal ▸ hrunId) hother
  | some run =>
    simp only [replaceRun]
    cases runtime with
    | none =>
      intro w _ h
      obtain ⟨-, id, hid, -⟩ := h.2 run rfl
      cases hid
    | some record =>
      intro w hw h
      obtain ⟨attempt, hattempt, hrunId⟩ := h.1.attempt hopen
      have hcurrent : currentRunId (some record) = some (attemptId sessionId attempt.ordinal) :=
        hrunId
      have hordinal : ordinalOf (some record) = attempt.ordinal := by simp [ordinalOf, hattempt]
      rw [hcurrent, hordinal]
      have hseen : (piSetting sessionId).Permanent (RuntimeSeen sessionId (some record)) :=
        permanent_seen _
      have hproof := (meets_requireStoppedWorker (p := p) (attemptId sessionId attempt.ordinal)
        (h.2 run rfl).1).frame hseen
      refine Meets.bind (P := Ended sessionId (some record) (some run))
        (M := fun _ w ↦ RuntimeSeen sessionId (some record) w ∧
          w.Stopped (attemptId sessionId attempt.ordinal))
        (hproof.conseq (fun w _ h ↦ ⟨h.1, ?_⟩) (fun _ _ _ hq ↦ hq) fun _ _ _ _ ↦ trivial)
        (fun _ ↦ meets_launch (fun w h _ ↦ ⟨h.1, .next hattempt h.2⟩) ?_) w hw h
      · obtain ⟨-, id, hid, hfound⟩ := h.2 run rfl
        rwa [Option.some.inj (hcurrent.symm.trans hid)]
      · intro q e w w' hw hw' hstep h
        exact ⟨permanent_seen _ hw hw' hstep h.1, permanent_stopped _ hw hw' hstep h.2⟩

/-! ## Starting and recovery -/

theorem yields_continueTurn {id turnId : String} {run : PiRun} :
    (piSetting sessionId).Yields p (continueTurn id run turnId) fun _ ↦ True := by
  unfold continueTurn
  split
  · exact yields_ret trivial
  split
  · exact yields_raise
  refine Yields.bind (yields_tried (yields_readPi trivial)) fun _ _ ↦ ?_
  refine Yields.bind (yields_tried (yields_readPi trivial)) fun ready _ ↦ ?_
  split
  · exact yields_tried (yields_readPi trivial)
  · exact yields_raise

/-- A Session that is gone was closed before. -/
theorem meets_readSession :
    (piSetting sessionId).Meets p (fun _ ↦ True) (ask .readSession)
      (fun state w ↦ state = none → w.IsClosed) fun _ _ ↦ True := by
  refine meets_readPi trivial stable_true fun w x a _ _ ha hnone ↦ ?_
  simp only [handlePi] at ha
  split at ha
  · cases ha
  next hopen =>
    obtain rfl : x.session = a := congrArg Prod.fst (Option.some.inj ha)
    by_contra hclosed
    exact hopen ⟨hnone, hclosed⟩

theorem yields_start {turnId : String} {hosted bootstrap : Bool} :
    (piSetting sessionId).Yields p (start sessionId turnId hosted bootstrap) fun _ ↦ True := by
  unfold start
  refine Meets.bind meets_readSession fun state ↦ ?_
  have hpermanent : (piSetting sessionId).Permanent fun w ↦ state = none → w.IsClosed :=
    fun _ _ _ _ hw hw' hstep h hnone ↦ permanent_isClosed hw hw' hstep (h hnone)
  refine Meets.bind (M := fun runtime w ↦ RuntimeSeen sessionId runtime w ∧
    (state = none → runtime.any (·.value.closed) = true))
    (meets_getRuntime hpermanent.stable fun w _ hclosed hseen ↦ ⟨hseen, hclosed⟩) fun runtime ↦ ?_
  split
  · exact meets_ret fun _ _ _ ↦ trivial
  split
  · exact meets_ret fun _ _ _ ↦ trivial
  next hopen =>
    have hlast : (piSetting sessionId).Permanent fun w ↦ RuntimeSeen sessionId runtime w ∧
        (state = none → runtime.any (·.value.closed) = true) :=
      fun _ _ _ _ hw hw' hstep h ↦ ⟨permanent_seen runtime hw hw' hstep h.1, h.2⟩
    refine (meets_runOf hlast).bind fun activeRun ↦ ?_
    split
    · exact yields_continueTurn.pre fun _ _ _ ↦ trivial
    next hended =>
      have hpi : ∀ w, RuntimeSeen sessionId runtime w ∧
          (state = none → runtime.any (·.value.closed) = true) → state.isSome = true := by
        intro w h
        by_contra hnone
        exact hopen (h.2 (by simpa using hnone))
      intro w hw h
      rw [hpi w h.1]
      refine meets_replaceRun activeRun (by simpa using hopen) w hw ⟨h.1.1, ?_⟩
      rintro run rfl
      have hterminal : run.status = .terminal := by simpa using hended
      obtain ⟨id, hid, hfound⟩ := h.2 run rfl
      exact ⟨hterminal, id, hid, hfound hterminal⟩

theorem yields_initializeSession {hosted : Bool} :
    (piSetting sessionId).Yields p (initializeSession sessionId hosted) fun _ ↦ True := by
  unfold initializeSession
  split
  · exact yields_ret trivial
  refine Yields.bind (yields_readPi trivial) fun runtime _ ↦ ?_
  cases runtime with
  | none => exact yields_start
  | some runtime =>
    dsimp only
    split
    · exact yields_ret trivial
    refine Meets.bind (meets_runOf fun _ _ _ _ _ _ _ h ↦ h) fun run ↦ ?_
    split
    · exact meets_ret fun _ _ _ ↦ trivial
    · exact yields_start.pre fun _ _ _ ↦ trivial

/-- A write that keeps the attempt of the record it has read. -/
theorem yields_putKeeping {record : Versioned StoredPiRuntime} {value : StoredPiRuntime}
    (hrunId : value.runId = record.value.runId)
    (hclosed : record.value.closed = true → value.closed = true)
    (hattempt : value.attempt.map (fun a ↦ (a.ordinal, a.phase)) =
      record.value.attempt.map fun a ↦ (a.ordinal, a.phase)) :
    (piSetting sessionId).Meets p (RuntimeSeen sessionId (some record))
      (stored (ask (.putRuntime record.revision value))) (fun _ _ ↦ True) fun _ _ ↦ True :=
  meets_stored (meets_putRuntime (some record) (Q := fun _ ↦ True)
    (permanent_seen _).stable (fun _ hseen ↦ hseen.1) fun _ hw _ hfound ↦
      ⟨(hw.supported record hfound).changes hfound hrunId hclosed hattempt, trivial⟩)

theorem yields_exhaust {runtime : Versioned StoredPiRuntime} :
    (piSetting sessionId).Yields p (exhaust runtime) fun _ ↦ True := by
  unfold exhaust
  refine Yields.bind (yields_tried (yields_readPi trivial)) fun _ _ ↦ ?_
  refine Meets.bind (meets_getRuntime (Q := RuntimeSeen sessionId) stable_true fun _ _ _ h ↦ h)
    fun settled ↦ ?_
  cases settled with
  | none => exact meets_ret fun _ _ _ ↦ trivial
  | some settled =>
    dsimp only
    split
    · exact meets_ret fun _ _ _ ↦ trivial
    refine Yields.seq (permanent_seen _) (yields_readPi trivial) fun state _ ↦ ?_
    cases state with
    | none => exact meets_ret fun _ _ _ ↦ trivial
    | some state =>
      dsimp only
      split
      · exact meets_ret fun _ _ _ ↦ trivial
      · exact meets_stored (meets_commitRuntime (some settled) (Q := fun _ ↦ True)
          (permanent_seen _).stable (fun _ hseen ↦ hseen.1) fun _ hw _ hfound ↦
            ⟨(hw.supported settled hfound).changes hfound rfl id rfl, trivial⟩)

theorem meets_replaceWhenDue {hosted : Bool} {runtime : Versioned StoredPiRuntime} {turnId : String}
    {failures : List ℕ} {delaySeconds now : ℕ} (hopen : runtime.value.closed = false) :
    (piSetting sessionId).Meets p (RuntimeSeen sessionId (some runtime))
      (replaceWhenDue sessionId hosted runtime turnId failures delaySeconds now) (fun _ _ ↦ True)
      fun _ _ ↦ True := by
  simp only [replaceWhenDue]
  split
  · intro w hw hseen
    obtain ⟨attempt, hattempt, -⟩ := hseen.attempt hopen
    refine Meets.bind (M := fun _ _ ↦ True) (yields_putKeeping ?_ ?_ ?_)
      (fun _ ↦ meets_raise fun _ _ _ ↦ trivial) w hw hseen
    · rfl
    · exact id
    · simp [hattempt]
  split
  · exact meets_raise fun _ _ _ ↦ trivial
  · exact yields_start.pre fun _ _ _ ↦ trivial

theorem meets_recover {hosted : Bool} {state : PiSessionState} {runtime : Versioned StoredPiRuntime}
    {decision : PiRecoveryDecision} {now : ℕ} (hopen : runtime.value.closed = false) :
    (piSetting sessionId).Meets p (RuntimeSeen sessionId (some runtime))
      (recover sessionId hosted state runtime decision now) (fun _ _ ↦ True) fun _ _ ↦ True := by
  have hreplace : ∀ (turn : Option (String × Bool)) (failures : List ℕ) (delaySeconds : ℕ),
      (piSetting sessionId).Meets p (RuntimeSeen sessionId (some runtime))
        (turn.elim (pure ()) fun turn ↦
          replaceWhenDue sessionId hosted runtime turn.1 failures delaySeconds now)
        (fun _ _ ↦ True) fun _ _ ↦ True := by
    intro turn failures delaySeconds
    cases turn with
    | none => exact meets_ret fun _ _ _ ↦ trivial
    | some turn => exact meets_replaceWhenDue hopen
  cases decision with
  | idle => exact meets_ret fun _ _ _ ↦ trivial
  | wait => exact meets_raise fun _ _ _ ↦ trivial
  | exhausted =>
    simp only [recover]
    split
    · exact yields_exhaust.pre fun _ _ _ ↦ trivial
    · exact hreplace _ _ _
  | replace failures delaySeconds => exact hreplace _ _ _

theorem yields_sightOf {runtime : Versioned StoredPiRuntime} {run : Option PiRun} :
    (piSetting sessionId).Yields p (sightOf runtime run) fun _ ↦ True := by
  unfold sightOf
  split
  · exact yields_ret trivial
  split
  · exact yields_ret trivial
  · exact Yields.bind (yields_tried (yields_readPi trivial)) fun _ _ ↦ yields_ret trivial

theorem yields_runOf {id : Option String} :
    (piSetting sessionId).Yields p (runOf id) fun _ ↦ True := by
  cases id with
  | none => exact yields_ret trivial
  | some id => exact yields_tried (yields_readPi trivial)

theorem meets_reconcileRun {hosted : Bool} {state : PiSessionState} {native : Option Bool}
    {runtime : Versioned StoredPiRuntime} (hopen : runtime.value.closed = false) :
    (piSetting sessionId).Meets p (RuntimeSeen sessionId (some runtime))
      (reconcileRun sessionId hosted state native runtime) (fun _ _ ↦ True) fun _ _ ↦ True := by
  have hseen : (piSetting sessionId).Permanent (RuntimeSeen sessionId (some runtime)) :=
    permanent_seen _
  refine yields_runOf.seq hseen fun run _ ↦ ?_
  split
  · exact meets_ret fun _ _ _ ↦ trivial
  refine Yields.seq hseen (yields_readPi trivial) fun now _ ↦ ?_
  exact yields_sightOf.seq hseen fun worker _ ↦ meets_recover hopen

theorem yields_reconcile {hosted : Bool} :
    (piSetting sessionId).Yields p (RunSessionExecution.reconcile sessionId hosted)
      fun _ ↦ True := by
  unfold RunSessionExecution.reconcile
  refine Yields.bind (yields_readPi trivial) fun state _ ↦ ?_
  cases state with
  | none => exact yields_ret trivial
  | some state =>
    dsimp only
    split
    · exact yields_ret trivial
    refine Yields.bind (yields_tried (yields_readPi trivial)) fun native _ ↦ ?_
    refine Meets.bind (meets_getRuntime (Q := RuntimeSeen sessionId) stable_true fun _ _ _ h ↦ h)
      fun runtime ↦ ?_
    cases runtime with
    | none => exact meets_ret fun _ _ _ ↦ trivial
    | some runtime =>
      dsimp only
      split
      · exact meets_ret fun _ _ _ ↦ trivial
      next hopen => exact meets_reconcileRun (by simpa using fun h ↦ hopen (.inl h))

/-! ## Steering, cancelling and closing -/

theorem yields_runFor {turnId : String} :
    (piSetting sessionId).Yields p (runFor sessionId turnId) fun _ ↦ True :=
  Yields.bind (yields_readPi trivial) fun _ _ ↦
    Yields.bind (yields_tried (yields_readPi trivial)) fun _ _ ↦ yields_ret trivial

theorem yields_recovering {hosted : Bool} :
    (piSetting sessionId).Yields p (recovering sessionId hosted) fun _ ↦ True :=
  yields_reconcile.bind fun _ _ ↦ yields_raise

theorem yields_steer {hosted : Bool} {turnId : String} :
    (piSetting sessionId).Yields p (steer sessionId hosted turnId) fun _ ↦ True := by
  refine yields_runFor.bind fun found _ ↦ ?_
  split
  · exact yields_raise
  split
  · refine Yields.bind (yields_readPi trivial) fun state _ ↦ ?_
    split
    · exact yields_recovering
    · exact yields_raise
  split
  · exact yields_raise
  · exact yields_tried (yields_readPi trivial)

theorem PiWorld.changeRun_cases (id : String) (change : PiRun → PiRun) :
    w.changeRun id change = w ∨ ∃ run, w.runs id = some run ∧ run.status ≠ .terminal ∧
      w.changeRun id change = { w with runs := Function.update w.runs id (some (change run)) } := by
  unfold PiWorld.changeRun
  split
  · exact .inl rfl
  next run hrun =>
    split
    · exact .inl rfl
    next hlive => exact .inr ⟨run, hrun, hlive, rfl⟩

theorem PiWorld.Coherent.changeRun (hw : w.Coherent sessionId) (id : String)
    (change : PiRun → PiRun) :
    (w.changeRun id change).Coherent sessionId ∧ PiStep sessionId w (w.changeRun id change) := by
  rcases w.changeRun_cases id change with hsame | ⟨run, hrun, hlive, hchanged⟩
  · rw [hsame]
    exact ⟨hw, .refl w⟩
  rw [hchanged]
  have hended : ∀ other found, w.runs other = some found → found.status = .terminal →
      Function.update w.runs id (some (change run)) other = some found := by
    intro other found hfound hterminal
    rw [Function.update_of_ne ?_, hfound]
    rintro rfl
    obtain rfl := Option.some.inj (hrun.symm.trans hfound)
    exact hlive hterminal
  have hexists : ∀ other, (Function.update w.runs id (some (change run)) other).isSome =
      (w.runs other).isSome := by
    intro other
    by_cases hother : other = id
    · subst hother
      rw [Function.update_self, hrun]
      rfl
    · rw [Function.update_of_ne hother]
  constructor
  · refine ⟨hw.created, fun other ↦ ?_, hw.empty, fun record hrecord ↦ ?_, hw.counted⟩
    · rw [← hw.runs, hexists]
    · exact (hw.supported record hrecord).keep rfl fun _ hstopped ↦
        hstopped.keep hended fun _ hmem ↦ hmem
  · exact ⟨.refl _, fun hclosed ↦ hclosed, fun _ hn ↦ hn, hended, fun _ hmem ↦ hmem, .inl rfl⟩

theorem yields_cancelRun {id : String} :
    (piSetting sessionId).Yields p (tried (ask (.cancelRun id))) fun _ ↦ True := by
  refine meets_triedPi (meets_perform stable_true fun w x a w' hw _ _ ha ↦ ?_)
  rcases PiWorld.done_cases (Option.some.inj ha) with rfl | rfl
  · obtain ⟨hw', hstep⟩ := hw.changeRun id _
    exact ⟨hw', hstep, fun _ _ ↦ trivial⟩
  · exact ⟨hw, .refl _, fun _ _ ↦ trivial⟩

theorem yields_cancel {hosted : Bool} {turnId : String} :
    (piSetting sessionId).Yields p (RunSessionExecution.cancel sessionId hosted turnId)
      fun _ ↦ True := by
  refine yields_runFor.bind fun found _ ↦ ?_
  refine Yields.bind (yields_readPi trivial) fun state _ ↦ ?_
  split
  · exact yields_recovering
  split
  · exact yields_ret trivial
  split
  · exact yields_ret trivial
  split
  · exact yields_tried (yields_readPi trivial)
  · exact yields_cancelRun

/-- A closure keeps the attempt. Before the first claim there is none, and no Run. -/
theorem PiWorld.Coherent.changes_closure (hw : w.Coherent sessionId) :
    w.Changes sessionId (SessionRuntimeStore.planRuntimeClosure (w.runtime.map (·.value))) := by
  cases hrecord : w.runtime with
  | none =>
    refine ⟨⟨fun _ ↦ ⟨rfl, hw.empty hrecord⟩, fun attempt ha ↦ ?_⟩, fun _ ↦ rfl,
      fun record n hsome ↦ ?_⟩
    · cases ha
    · cases hrecord.symm.trans hsome
  | some record => exact (hw.supported record hrecord).changes hrecord rfl (fun _ ↦ rfl) rfl

theorem yields_closeRuntime (attempts : ℕ) :
    (piSetting sessionId).Yields p (closeRuntime attempts) fun _ ↦ True := by
  induction attempts with
  | zero => exact yields_raise
  | succ attempts ih =>
    refine Meets.bind (meets_getRuntime (Q := RuntimeSeen sessionId) stable_true fun _ _ _ h ↦ h)
      fun current ↦ ?_
    split
    · exact meets_ret fun _ _ _ ↦ trivial
    refine Meets.bind (M := fun _ _ ↦ True) ?_ fun r ↦ ?_
    · refine (meets_putRuntime current (Q := fun _ ↦ True) (permanent_seen current).stable
        (fun _ hseen ↦ hseen.1) fun w hw _ hfound ↦ ⟨?_, trivial⟩).conseq (fun _ _ hp ↦ hp)
          (fun _ _ _ _ ↦ trivial) fun _ _ _ ht ↦ ht
      subst hfound
      exact hw.changes_closure
    · cases r with
      | done => exact yields_ret trivial
      | conflict =>
        dsimp only
        split
        · exact yields_raise
        · exact ih
      | unknown => exact yields_raise

theorem yields_cancelWorker {id : Option String} :
    (piSetting sessionId).Yields p (cancelWorker id) fun _ ↦ True := by
  refine yields_runOf.bind fun run _ ↦ ?_
  split
  · exact yields_cancelRun
  · exact yields_ret trivial

theorem yields_retireEnvironment {environment : Bool} :
    (piSetting sessionId).Yields p (retireEnvironment environment) fun _ ↦ True := by
  unfold retireEnvironment
  split
  · exact yields_tried (yields_readPi trivial)
  · exact yields_ret trivial

theorem yields_close {environment : Bool} :
    (piSetting sessionId).Yields p (close environment) fun _ ↦ True := by
  refine (yields_closeRuntime 10).bind fun id _ ↦ ?_
  refine yields_cancelWorker.bind fun _ _ ↦ ?_
  exact yields_retireEnvironment.bind fun _ _ ↦ yields_tried (yields_readPi trivial)

theorem yields_publish {runId : String} {snapshot : List (String × Bool)} :
    (piSetting sessionId).Yields p (publish runId snapshot) fun _ ↦ True := by
  unfold publish
  refine Meets.bind (meets_getRuntime (Q := RuntimeSeen sessionId) stable_true fun _ _ _ h ↦ h)
    fun current ↦ ?_
  cases current with
  | none => exact meets_ret fun _ _ _ ↦ trivial
  | some current =>
    dsimp only
    split
    · exact meets_ret fun _ _ _ ↦ trivial
    · exact yields_putKeeping rfl id rfl

theorem yields_advanceRun {id : String} {run : PiRun} :
    (piSetting sessionId).Yields p (ask (.advanceRun id run)) fun _ ↦ True := by
  refine meets_perform stable_true fun w x a w' hw _ _ ha ↦ ?_
  cases ha
  obtain ⟨hw', hstep⟩ := hw.changeRun id _
  exact ⟨hw', hstep, trivial⟩

theorem yields_stopRun {id generation : String} :
    (piSetting sessionId).Yields p (ask (.stopRun id generation)) fun _ ↦ True := by
  refine meets_perform stable_true fun w x a w' hw _ _ ha ↦ ?_
  cases ha
  have hkeep : ∀ halted ∈ w.stopped, halted ∈ w.stopped ++ [(id, generation)] :=
    fun _ hmem ↦ List.mem_append_left _ hmem
  refine ⟨⟨hw.created, hw.runs, hw.empty, fun record hrecord ↦ ?_, hw.counted⟩,
    ⟨.refl _, fun hclosed ↦ hclosed, fun _ hn ↦ hn, fun _ _ hrun _ ↦ hrun, hkeep, .inl rfl⟩,
      trivial⟩
  exact (hw.supported record hrecord).keep rfl fun _ hstopped ↦
    hstopped.keep (fun _ _ hrun _ ↦ hrun) hkeep

/-! ## Runs -/

theorem coherent_fresh : PiWorld.fresh.Coherent sessionId where
  created := rfl
  runs id := by
    constructor
    · intro h
      cases h
    · rintro ⟨n, hn, -⟩
      exact absurd hn (Nat.not_lt_zero n)
  empty _ := rfl
  supported _ h := nomatch h
  counted _ h := nomatch h

theorem piSetting_verified (sessionId : String) :
    (piSetting sessionId).Verified PiWorld.fresh (fun _ _ _ ↦ True) fun _ _ _ ↦ True where
  init := coherent_fresh
  body := by
    rintro ⟨pid, call⟩
    refine Meets.pre (P := fun _ ↦ True) ?_ fun _ _ _ ↦ trivial
    cases call with
    | start turnId hosted => exact yields_start
    | initializeSession hosted => exact yields_initializeSession
    | reconcile hosted => exact yields_reconcile
    | steer hosted turnId => exact yields_steer
    | cancel hosted turnId => exact yields_cancel
    | close environment => exact yields_close
    | publish runId snapshot => exact yields_publish
    | advanceRun id run => exact yields_advanceRun
    | stopRun id generation => exact yields_stopRun
  post_stable _ _ := stable_true
  fail_stable _ _ := stable_true

/-- Every Run but the last one has stopped. -/
theorem PiWorld.Coherent.stopped_of_lt (hw : w.Coherent sessionId) {n : ℕ}
    (hn : n + 1 < w.created.length) : w.Stopped (attemptId sessionId n) := by
  cases hrecord : w.runtime with
  | none =>
    rw [hw.empty hrecord] at hn
    cases hn
  | some record =>
    have hsupports := hw.supported record hrecord
    cases hattempt : record.value.attempt with
    | none =>
      rw [(hsupports.unclaimed hattempt).2] at hn
      cases hn
    | some attempt =>
      have hserves := hsupports.attempt attempt hattempt
      have hmost := hserves.most
      exact hserves.stopped n (by omega)

/-- **A Pi Session has at most one live worker.** The Runs of the Session are those of the attempts
`0`, `1`, `2` and so on, all but the last one have stopped, and when a Run is created, the runtime
record has named its id with an attempt marked as submitting and every Run before it has stopped. -/
theorem workers_follow_one_another (sessionId : String)
    {c : Config PiWorld PiEffect PiEffect.Answer ServiceFailure Unit PiCall}
    (hc : Reachable (piService sessionId) .free .fresh c) :
    c.state.created = (List.range c.state.created.length).map (attemptKey sessionId) ∧
    (∀ n, n + 1 < c.state.created.length → c.state.Stopped (idFor (attemptKey sessionId n))) ∧
    ∀ ev c', (piService sessionId).step c ev = some c' → c'.state.created ≠ c.state.created →
      c'.state.created = c.state.created ++ [attemptKey sessionId c.state.created.length] ∧
      idFor (attemptKey sessionId c.state.created.length) ∈ c.state.named ∧
      ∀ n < c.state.created.length, c.state.Stopped (idFor (attemptKey sessionId n)) := by
  have hsound := (piSetting_verified sessionId).reachable hc
  refine ⟨hsound.inv.created, fun n hn ↦ hsound.inv.stopped_of_lt hn, fun ev c' hstep hne ↦ ?_⟩
  rcases ((piSetting_verified sessionId).step hsound (permits_free c ev) hstep).2 with
    hstate | ⟨q, e, hguar⟩
  · rw [hstate] at hne
    exact absurd rfl hne
  · exact hguar.created.resolve_left hne

end

/-- A caller that is answered so many times. -/
def callOf (pid : ℕ) (call : PiCall) (count : ℕ) : List (Event PiCall PiChoice) :=
  .start pid call :: List.replicate count (.resume pid {})

/-- The first worker ends, and a second one is about to be submitted. -/
def sampleWorkers : List (Event PiCall PiChoice) :=
  callOf 0 (.start "first" false) 7 ++
    callOf 1 (.advanceRun (idFor (attemptKey "session" 0))
      ⟨.terminal, some (some "generation"), "first"⟩) 1 ++
    callOf 2 (.stopRun (idFor (attemptKey "session" 0)) "generation") 1 ++
    callOf 3 (.start "second" false) 8

theorem sampleWorkers_follow :
    ∃ c c', (piService "session").run .free sampleWorkers (.initial .fresh) = some c ∧
      (piService "session").step c (.resume 3 {}) = some c' ∧
      c'.state.created = c.state.created ++ [attemptKey "session" 1] ∧
      c.state.Stopped (idFor (attemptKey "session" 0)) := by
  have hrun : ((piService "session").run .free sampleWorkers (.initial .fresh)).bind (fun c ↦
      ((piService "session").step c (.resume 3 {})).map fun c' ↦
        (c.state.created.length, c'.state.created.length)) = some (1, 2) := by decide +kernel
  obtain ⟨c, hc, hstep⟩ := Option.bind_eq_some_iff.mp hrun
  obtain ⟨c', hc', hlengths⟩ := Option.map_eq_some_iff.mp hstep
  obtain ⟨hbefore, hafter⟩ := Prod.mk.inj hlengths
  have hne : c'.state.created ≠ c.state.created := by
    intro hsame
    rw [hsame, hbefore] at hafter
    cases hafter
  obtain ⟨-, -, hcreated⟩ := workers_follow_one_another "session" (leads_of_run hc)
  obtain ⟨hkey, -, hstopped⟩ := hcreated _ c' hc' hne
  rw [hbefore] at hkey hstopped
  exact ⟨c, c', hc, hc', hkey, hstopped 0 Nat.zero_lt_one⟩

end RatThings
