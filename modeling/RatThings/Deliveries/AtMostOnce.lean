import RatThings.Deliveries.Fence

/-!
# A result is delivered at most once

Several processes may deliver the result of one execution to its destinations. The fence keeps an
item for each execution and destination, which expires when its sender disappears. This module
proves that the message is sent at most once for every time it is known not to have arrived.

## The construction

What may happen to one item of the fence is an automaton (`FencePhase`), and the log of every item
is a word that it accepts. Two sends are then separated by a release, because only a release leads
back to the phase in which the item can be granted again. So the counting is done on words, once,
and the requests of the callers only have to be transitions.

A sender whose lease expires before it has begun to send still holds what it was granted (`late`):
its item already says that the outcome is unknown, and its one send may follow.

## The invariant

`Consistent` says of every item that its log is accepted and ends in a phase which the item fits.
A caller knows that it was granted the item and has not sent (`Holds`), or that it has sent
(`Sent`), and no other caller takes either from it, since a grant names the caller.
-/

namespace RatThings

open Concurrent Service Setting

/-! ## The phases of an item

The phases tell apart what the stored item does not: whether its sender has sent. -/

inductive FencePhase : Type
  | free
  /-- Granted, and not sent yet. -/
  | held (pid : ℕ)
  | inFlight (pid : ℕ) (outcome : SendOutcome)
  /-- Granted and expired, and not sent yet. -/
  | late (pid : ℕ)
  /-- Sent, or known to be delivered or not, and never to be granted again. -/
  | closed
deriving DecidableEq

namespace FencePhase

def next : FencePhase → FenceEvent → Option FencePhase
  | free, .granted p => some (held p)
  | held p, .expired => some (late p)
  | held p, .sent q outcome => if p = q then some (inFlight p outcome) else none
  | inFlight _ _, .expired => some closed
  | inFlight p _, .recorded q _ => if p = q then some closed else none
  | inFlight p outcome, .released q =>
    if p = q ∧ mayResend outcome = true then some free else none
  | late p, .sent q _ => if p = q then some closed else none
  | closed, .recorded _ _ => some closed
  | _, _ => none

/-- The phase after a log, if the log is one that can happen. -/
def after (phase : FencePhase) (log : List FenceEvent) : Option FencePhase := log.foldlM next phase

@[simp] theorem after_nil (phase : FencePhase) : phase.after [] = some phase := rfl

theorem after_cons (phase : FencePhase) (event : FenceEvent) (log : List FenceEvent) :
    phase.after (event :: log) = (phase.next event).bind (·.after log) := rfl

theorem after_append (phase : FencePhase) (log log' : List FenceEvent) :
    phase.after (log ++ log') = (phase.after log).bind (·.after log') := by
  rw [after, List.foldlM_append]
  rfl

theorem after_concat {phase phase' : FencePhase} {log : List FenceEvent} {event : FenceEvent}
    {phase'' : FencePhase} (h : phase.after log = some phase')
    (hnext : phase'.next event = some phase'') : phase.after (log ++ [event]) = some phase'' := by
  rw [after_append, h, Option.bind_some, after_cons, hnext]
  rfl

/-- A closed item is only written to by its sender. -/
theorem recorded_of_closed {log : List FenceEvent} {phase : FencePhase}
    (h : closed.after log = some phase) : phase = closed ∧ ∀ event ∈ log, ∃ p status,
      event = .recorded p status := by
  induction log with
  | nil =>
    cases h
    exact ⟨rfl, fun _ he ↦ (nomatch he)⟩
  | cons event log ih =>
    rw [after_cons] at h
    cases event with
    | recorded p status =>
      obtain ⟨hphase, hlog⟩ := ih h
      refine ⟨hphase, fun event' he ↦ ?_⟩
      rcases List.mem_cons.mp he with rfl | he
      · exact ⟨p, status, rfl⟩
      · exact hlog event' he
    | _ => cases h

/-- What can follow a lease that expired before its holder sent is that send. -/
theorem sent_of_late {p : ℕ} {log : List FenceEvent} {phase : FencePhase}
    (h : (late p).after log = some phase) : log = [] ∧ phase = late p ∨
      phase = closed ∧ ∃ outcome rest, log = .sent p outcome :: rest ∧
        ∀ event ∈ rest, ∃ q status, event = .recorded q status := by
  cases log with
  | nil =>
    cases h
    exact .inl ⟨rfl, rfl⟩
  | cons event rest =>
    rw [after_cons, Option.bind_eq_some_iff] at h
    obtain ⟨phase', hnext, hrest⟩ := h
    cases event with
    | sent q outcome =>
      rw [next] at hnext
      split at hnext
      · next hpq =>
        cases hnext
        obtain ⟨hphase, hrecorded⟩ := recorded_of_closed hrest
        exact .inr ⟨hphase, outcome, rest, by rw [hpq], hrecorded⟩
      · cases hnext
    | _ => cases hnext

/-- What leads from a send to another send goes through a release of the first. -/
theorem released_of_inFlight {p q : ℕ} {outcome outcome' : SendOutcome}
    {log rest : List FenceEvent} {phase : FencePhase}
    (h : (inFlight p outcome).after (log ++ .sent q outcome' :: rest) = some phase) :
    .released p ∈ log ∧ mayResend outcome = true := by
  have hclosed : ∀ log' : List FenceEvent, closed.after (log' ++ .sent q outcome' :: rest) ≠
      some phase := by
    intro log' h'
    obtain ⟨a, b, hab⟩ := (recorded_of_closed h').2 (.sent q outcome') (by simp)
    cases hab
  cases log with
  | nil => cases h
  | cons event log =>
    rw [List.cons_append, after_cons, Option.bind_eq_some_iff] at h
    obtain ⟨phase', hnext, hrest⟩ := h
    cases event with
    | released r =>
      rw [next] at hnext
      split at hnext
      · next hr =>
        obtain ⟨rfl, hmay⟩ := hr
        exact ⟨List.mem_cons_self, hmay⟩
      · cases hnext
    | expired =>
      cases hnext
      exact absurd hrest (hclosed log)
    | recorded r status =>
      rw [next] at hnext
      split at hnext
      · cases hnext
        exact absurd hrest (hclosed log)
      · cases hnext
    | granted r => cases hnext
    | sent r o => cases hnext

theorem released_between {phase phase' : FencePhase} {p q : ℕ} {outcome outcome' : SendOutcome}
    {before log rest : List FenceEvent}
    (h : phase.after (before ++ .sent p outcome :: (log ++ .sent q outcome' :: rest)) =
      some phase') : .released p ∈ log ∧ mayResend outcome = true := by
  rw [after_append, Option.bind_eq_some_iff] at h
  obtain ⟨phase₁, -, h⟩ := h
  rw [after_cons, Option.bind_eq_some_iff] at h
  obtain ⟨phase₂, hnext, h⟩ := h
  cases phase₁ with
  | held r =>
    rw [next] at hnext
    split at hnext
    · next hr =>
      cases hnext
      exact hr ▸ released_of_inFlight h
    · cases hnext
  | late r =>
    rw [next] at hnext
    split at hnext
    · cases hnext
      obtain ⟨a, b, hab⟩ := (recorded_of_closed h).2 (.sent q outcome') (by simp)
      cases hab
    · cases hnext
  | _ => cases hnext

/-- What the item looks like in each phase. -/
def Fits : FencePhase → Option FenceItem → Prop
  | free, item => item = none
  | held _, item => ∃ i, item = some i ∧ i.status = .sending
  | inFlight _ _, item => ∃ i, item = some i ∧ i.status = .sending
  | late _, item => ∃ i, item = some i ∧ i.status = .outcomeUnknown
  | closed, item => ∃ i, item = some i ∧ i.status ≠ .sending

/-- A held item was granted just now. -/
theorem granted_of_held {p : ℕ} {log : List FenceEvent} (h : free.after log = some (held p)) :
    ∃ before, log = before ++ [.granted p] := by
  rcases List.eq_nil_or_concat log with rfl | ⟨before, event, rfl⟩
  · cases h
  rw [List.concat_eq_append, after_append, Option.bind_eq_some_iff] at h
  obtain ⟨phase, -, hlast⟩ := h
  rw [after_cons, Option.bind_eq_some_iff] at hlast
  obtain ⟨phase', hnext, hend⟩ := hlast
  cases hend
  refine ⟨before, ?_⟩
  unfold next at hnext
  split at hnext <;> simp_all

theorem expired_of_late {p : ℕ} {log : List FenceEvent} (h : free.after log = some (late p)) :
    ∃ before, log = before ++ [.granted p, .expired] := by
  rcases List.eq_nil_or_concat log with rfl | ⟨before, event, rfl⟩
  · cases h
  rw [List.concat_eq_append, after_append, Option.bind_eq_some_iff] at h
  obtain ⟨phase, hbefore, hlast⟩ := h
  rw [after_cons, Option.bind_eq_some_iff] at hlast
  obtain ⟨phase', hnext, hend⟩ := hlast
  cases hend
  have hheld : phase = held p ∧ event = .expired := by
    unfold next at hnext
    split at hnext <;> simp_all
  obtain ⟨rfl, rfl⟩ := hheld
  obtain ⟨before', rfl⟩ := granted_of_held hbefore
  exact ⟨before', by simp⟩

end FencePhase

/-! ## The invariant -/

namespace FenceWorld

def phase (w : FenceWorld) (key : String) : Option FencePhase := FencePhase.free.after (w.log key)

/-- The log of every item is one that can happen, and fits the item. -/
def Consistent (w : FenceWorld) : Prop :=
  ∀ key, ∃ phase, w.phase key = some phase ∧ phase.Fits (w.table key)

/-- The item was granted to this caller, who has not sent yet. -/
def Holds (p : ℕ) (key : String) (w : FenceWorld) : Prop :=
  w.phase key = some (.held p) ∨ w.phase key = some (.late p)

/-- This caller has sent. -/
def Sent (p : ℕ) (outcome : SendOutcome) (key : String) (w : FenceWorld) : Prop :=
  w.phase key = some (.inFlight p outcome) ∨ w.phase key = some .closed

/-- What a step of one caller leaves to the others. -/
structure Step (p : ℕ) (w w' : FenceWorld) : Prop where
  log : ∀ key, w.log key <+: w'.log key
  holds : ∀ key q, q ≠ p → Holds q key w → Holds q key w'
  sent : ∀ key q outcome, q ≠ p → Sent q outcome key w → Sent q outcome key w'

theorem Step.refl (p : ℕ) (w : FenceWorld) : Step p w w :=
  ⟨fun _ ↦ List.prefix_rfl, fun _ _ _ h ↦ h, fun _ _ _ _ h ↦ h⟩

variable {w : FenceWorld} {p : ℕ} {key : String} {item : Option FenceItem} {event : FenceEvent}
  {phase phase' : FencePhase}

theorem phase_record (h : w.phase key = some phase) (hnext : phase.next event = some phase') :
    (w.record key item event).phase key = some phase' := by
  rw [FenceWorld.phase, record_log_self]
  exact FencePhase.after_concat h hnext

theorem phase_record_of_ne {key' : String} (h : key' ≠ key) :
    (w.record key item event).phase key' = w.phase key' := by
  rw [FenceWorld.phase, FenceWorld.phase, record_log_of_ne w item event h]

/-- A change of one item that the automaton allows. What it does to the phases of other callers is
all that is left to check. -/
theorem step_record (hw : w.Consistent) (h : w.phase key = some phase)
    (hnext : phase.next event = some phase') (hfits : phase'.Fits item)
    (hholds : ∀ q, q ≠ p → phase = .held q ∨ phase = .late q →
      phase' = .held q ∨ phase' = .late q)
    (hsent : ∀ q outcome, q ≠ p → phase = .inFlight q outcome ∨ phase = .closed →
      phase' = .inFlight q outcome ∨ phase' = .closed) :
    (w.record key item event).Consistent ∧ Step p w (w.record key item event) := by
  have hnew : (w.record key item event).phase key = some phase' := phase_record h hnext
  refine ⟨fun key' ↦ ?_, fun key' ↦ ?_, fun key' q hq hold ↦ ?_, fun key' q outcome hq hold ↦ ?_⟩
  · by_cases hkey : key' = key
    · subst hkey
      refine ⟨phase', hnew, ?_⟩
      rw [record_table_self]
      exact hfits
    · rw [phase_record_of_ne hkey, record_table_of_ne w item event hkey]
      exact hw key'
  · by_cases hkey : key' = key
    · subst hkey
      rw [record_log_self]
      exact List.prefix_append _ _
    · have hsame := record_log_of_ne w item event hkey
      exact hsame ▸ List.prefix_rfl
  · by_cases hkey : key' = key
    · subst hkey
      rw [Holds, h, Option.some.injEq, Option.some.injEq] at hold
      rw [Holds, hnew, Option.some.injEq, Option.some.injEq]
      exact hholds q hq hold
    · rw [Holds, phase_record_of_ne hkey]
      exact hold
  · by_cases hkey : key' = key
    · subst hkey
      rw [Sent, h, Option.some.injEq, Option.some.injEq] at hold
      rw [Sent, hnew, Option.some.injEq, Option.some.injEq]
      exact hsent q outcome hq hold
    · rw [Sent, phase_record_of_ne hkey]
      exact hold

/-! ## The requests

A request of a caller that holds the item moves its phase; one of another caller does not, except
for the one that finds the lease expired. -/

theorem step_put {w' : FenceWorld} {i : FenceItem} (hw : w.Consistent) (hi : i.status = .sending)
    (h : w.put p key i = some w') : w'.Consistent ∧ Step p w w' ∧ Holds p key w' := by
  unfold FenceWorld.put at h
  split at h
  · next hnone =>
    cases h
    obtain ⟨phase, hphase, hfits⟩ := hw key
    have hfree : phase = .free := by
      cases phase with
      | free => rfl
      | _ =>
        obtain ⟨i', hi', -⟩ := hfits
        rw [hnone] at hi'
        cases hi'
    subst hfree
    obtain ⟨hw', hstep⟩ := step_record (p := p) hw hphase
      (show FencePhase.free.next (.granted p) = some (.held p) from rfl) ⟨i, rfl, hi⟩
      (by simp) (by simp)
    exact ⟨hw', hstep, .inl (phase_record hphase rfl)⟩
  · cases h

theorem step_expire {w' : FenceWorld} {nowSeconds : ℕ} (hw : w.Consistent)
    (h : w.expire key nowSeconds = some w') : w'.Consistent ∧ Step p w w' := by
  unfold FenceWorld.expire at h
  split at h
  · next i hitem =>
    split at h
    · next hcondition =>
      cases h
      obtain ⟨phase, hphase, hfits⟩ := hw key
      cases phase with
      | held q =>
        exact step_record hw hphase rfl ⟨_, rfl, rfl⟩ (by simp) (by simp)
      | inFlight q outcome =>
        exact step_record hw hphase rfl ⟨_, rfl, by simp⟩ (by simp) (by simp)
      | free =>
        rw [FencePhase.Fits, hitem] at hfits
        cases hfits
      | late q =>
        obtain ⟨i', hi', hstatus⟩ := hfits
        rw [hitem] at hi'
        cases hi'
        rw [hstatus] at hcondition
        cases hcondition.1
      | closed =>
        obtain ⟨i', hi', hstatus⟩ := hfits
        rw [hitem] at hi'
        cases hi'
        exact absurd hcondition.1 hstatus
    · cases h
  · cases h

theorem step_send {outcome : SendOutcome} (hw : w.Consistent) (h : Holds p key w) :
    (w.send p key outcome).Consistent ∧ Step p w (w.send p key outcome) ∧
      Sent p outcome key (w.send p key outcome) := by
  obtain ⟨phase, hphase, hfits⟩ := hw key
  rcases h with h | h
  · obtain rfl : phase = .held p := Option.some.inj (hphase.symm.trans h)
    have hnext : (FencePhase.held p).next (.sent p outcome) = some (.inFlight p outcome) := by
      simp [FencePhase.next]
    obtain ⟨hw', hstep⟩ := step_record (p := p) hw h hnext hfits
      (fun q hq hold ↦ by simp [Ne.symm hq] at hold) (by simp)
    exact ⟨hw', hstep, .inl (phase_record h hnext)⟩
  · obtain rfl : phase = .late p := Option.some.inj (hphase.symm.trans h)
    have hnext : (FencePhase.late p).next (.sent p outcome) = some .closed := by
      simp [FencePhase.next]
    have hclosed : FencePhase.closed.Fits (w.table key) := by
      obtain ⟨i, hi, hstatus⟩ := hfits
      exact ⟨i, hi, by rw [hstatus]; simp⟩
    obtain ⟨hw', hstep⟩ := step_record (p := p) hw h hnext hclosed
      (fun q hq hold ↦ by simp [Ne.symm hq] at hold) (by simp)
    exact ⟨hw', hstep, .inr (phase_record h hnext)⟩

theorem step_update {outcome : SendOutcome} {status : DeliveryStatus} (hw : w.Consistent)
    (hstatus : status ≠ .sending) (h : Sent p outcome key w) :
    (w.update p key status).Consistent ∧ Step p w (w.update p key status) ∧
      Sent p outcome key (w.update p key status) := by
  have hfits : FencePhase.closed.Fits (some ⟨status, none⟩) := ⟨_, rfl, hstatus⟩
  rcases h with h | h
  · have hnext : (FencePhase.inFlight p outcome).next (.recorded p status) = some .closed := by
      simp [FencePhase.next]
    obtain ⟨hw', hstep⟩ := step_record (p := p) hw h hnext hfits (by simp) (by simp)
    exact ⟨hw', hstep, .inr (phase_record h hnext)⟩
  · obtain ⟨hw', hstep⟩ := step_record (p := p) hw h
      (show FencePhase.closed.next (.recorded p status) = some .closed from rfl) hfits
      (by simp) (by simp)
    exact ⟨hw', hstep, .inr (phase_record h rfl)⟩

theorem step_delete {w' : FenceWorld} {outcome : SendOutcome} (hw : w.Consistent)
    (hmay : mayResend outcome = true) (h : Sent p outcome key w) (hd : w.delete p key = some w') :
    w'.Consistent ∧ Step p w w' := by
  unfold FenceWorld.delete at hd
  split at hd
  · next i hitem =>
    split at hd
    · next hsending =>
      cases hd
      obtain ⟨phase, hphase, hfits⟩ := hw key
      rcases h with h | h
      · have hnext : (FencePhase.inFlight p outcome).next (.released p) = some .free := by
          simp [FencePhase.next, hmay]
        exact step_record hw h hnext rfl (by simp) fun q o hq hold ↦ by
          simp [Ne.symm hq] at hold
      · obtain rfl : phase = .closed := Option.some.inj (hphase.symm.trans h)
        obtain ⟨i', hi', hstatus⟩ := hfits
        rw [hitem] at hi'
        cases hi'
        exact absurd hsending hstatus
    · cases hd
  · cases hd

end FenceWorld

/-! ## The calls -/

namespace DeliveryFence

variable (fence : DeliveryFence)

def setting : Setting FenceWorld FenceEffect FenceEffect.Answer DeliveryFailure Unit Call
    FenceChoice where
  service := fence.service
  discipline := .free
  inv := FenceWorld.Consistent
  guar p _ w w' := w.Step p.1 w'

variable {fence} {p : ℕ × Call} {key : String} {outcome : SendOutcome} {β γ : Type}

theorem stable_holds : fence.setting.Stable p (FenceWorld.Holds p.1 key) :=
  fun _ _ _ _ hq _ _ hg h ↦ hg.holds key p.1 (Ne.symm hq) h

theorem stable_sent : fence.setting.Stable p (FenceWorld.Sent p.1 outcome key) :=
  fun _ _ _ _ hq _ _ hg h ↦ hg.sent key p.1 outcome (Ne.symm hq) h

theorem meets_put {item : FenceItem} (hitem : item.status = .sending) :
    fence.setting.Meets p (fun _ ↦ True)
      (Prog.perform (FenceEffect.put key item) : DeliveryProg Reply)
      (fun reply w ↦ reply = .done → FenceWorld.Holds p.1 key w) fun _ _ ↦ True := by
  refine meets_perform stable_true fun {w x a w'} hinv _ _ ha ↦ ?_
  rcases Fate.settle_cases (Option.some.inj ha) with ⟨hput, -⟩ | ⟨rfl, hne⟩
  · obtain ⟨hw', hstep, hholds⟩ := FenceWorld.step_put (p := p.1) hinv hitem hput
    exact ⟨hw', hstep, fun _ ↦ hholds⟩
  · exact ⟨hinv, .refl _ _, fun hdone ↦ absurd hdone hne⟩

theorem yields_now : fence.setting.Yields p
    (Prog.perform FenceEffect.now : DeliveryProg ℕ) fun _ ↦ True := by
  refine yields_perform fun {w x a w'} hinv _ _ ha ↦ ?_
  cases ha
  exact ⟨hinv, .refl _ _, trivial⟩

theorem yields_get : fence.setting.Yields p
    (Prog.perform (FenceEffect.get key) : DeliveryProg (Option FenceItem)) fun _ ↦ True := by
  refine yields_perform fun {w x a w'} hinv _ _ ha ↦ ?_
  cases ha
  exact ⟨hinv, .refl _ _, trivial⟩

theorem yields_expire {nowSeconds : ℕ} : fence.setting.Yields p
    (Prog.perform (FenceEffect.expire key nowSeconds) : DeliveryProg Reply) fun _ ↦ True := by
  refine yields_perform fun {w x a w'} hinv _ _ ha ↦ ?_
  rcases Fate.settle_cases (Option.some.inj ha) with ⟨hexpire, -⟩ | ⟨rfl, -⟩
  · obtain ⟨hw', hstep⟩ := FenceWorld.step_expire (p := p.1) hinv hexpire
    exact ⟨hw', hstep, trivial⟩
  · exact ⟨hinv, .refl _ _, trivial⟩

theorem meets_send {T : DeliveryFailure → FenceWorld → Prop} :
    fence.setting.Meets p (FenceWorld.Holds p.1 key)
      (Prog.perform (FenceEffect.send key) : DeliveryProg SendOutcome)
      (fun outcome w ↦ FenceWorld.Sent p.1 outcome key w) T := by
  refine meets_perform stable_holds fun {w x a w'} hinv hp _ ha ↦ ?_
  cases ha
  exact FenceWorld.step_send hinv hp

theorem meets_update {runId destination : String} {status : DeliveryStatus}
    (hstatus : status ≠ .sending) :
    fence.setting.Meets p (FenceWorld.Sent p.1 outcome (fence.deliveryKey runId destination))
      (fence.update runId destination status) (fun _ _ ↦ True)
      fun failure w ↦ failure.isRetryable = false ∧
        FenceWorld.Sent p.1 outcome (fence.deliveryKey runId destination) w := by
  refine Meets.bind (M := fun _ ↦ FenceWorld.Sent p.1 outcome
    (fence.deliveryKey runId destination)) ?_ fun reply ↦ ?_
  · refine meets_perform stable_sent fun {w x a w'} hinv hp _ ha ↦ ?_
    rcases Fate.settle_cases (Option.some.inj ha) with ⟨hupdate, -⟩ | ⟨rfl, -⟩
    · cases hupdate
      exact FenceWorld.step_update hinv hstatus hp
    · exact ⟨hinv, .refl _ _, hp⟩
  · cases reply with
    | done => exact meets_ret fun _ _ _ ↦ trivial
    | conflict => exact meets_raise fun _ _ hp ↦ ⟨rfl, hp⟩
    | unknown => exact meets_raise fun _ _ hp ↦ ⟨rfl, hp⟩

theorem meets_release {runId destination : String} (hmay : mayResend outcome = true) :
    fence.setting.Meets p (FenceWorld.Sent p.1 outcome (fence.deliveryKey runId destination))
      (fence.release runId destination) (fun _ _ ↦ True) fun _ _ ↦ True := by
  refine Meets.bind (M := fun _ _ ↦ True) ?_ fun reply ↦ ?_
  · refine meets_perform stable_sent fun {w x a w'} hinv hp _ ha ↦ ?_
    rcases Fate.settle_cases (Option.some.inj ha) with ⟨hdelete, -⟩ | ⟨rfl, -⟩
    · obtain ⟨hw', hstep⟩ := FenceWorld.step_delete hinv hmay hp hdelete
      exact ⟨hw', hstep, trivial⟩
    · exact ⟨hinv, .refl _ _, trivial⟩
  · cases reply with
    | done => exact meets_ret fun _ _ _ ↦ trivial
    | conflict => exact meets_raise fun _ _ _ ↦ trivial
    | unknown => exact meets_raise fun _ _ _ ↦ trivial

/-- A claim that is granted gives the caller the item. -/
theorem meets_claim (runId destination : String) (patience : ℕ) :
    fence.setting.Meets p (fun _ ↦ True) (fence.claim runId destination patience)
      (fun claimed w ↦ claimed = true →
        FenceWorld.Holds p.1 (fence.deliveryKey runId destination) w) fun _ _ ↦ True := by
  induction patience with
  | zero => exact meets_call (fun _ _ ↦ True) stable_true (fun _ _ _ ha ↦ (nomatch ha)) nofun
  | succ patience ih =>
    refine yields_now.andThen fun now _ ↦ Meets.bind (meets_put rfl) fun reply ↦ ?_
    cases reply with
    | done => exact meets_ret fun w _ hw _ ↦ hw rfl
    | unknown => exact meets_raise fun _ _ _ ↦ trivial
    | conflict =>
      refine (yields_get.andThen fun existing _ ↦ ?_).pre fun _ _ _ ↦ trivial
      split
      · exact ih
      · dsimp only
        split
        · exact meets_ret fun _ _ _ h ↦ nomatch h
        split
        · exact meets_raise fun _ _ _ ↦ trivial
        refine yields_expire.andThen fun reply _ ↦ ?_
        cases reply with
        | done => exact meets_ret fun _ _ _ h ↦ nomatch h
        | conflict => exact meets_raise fun _ _ _ ↦ trivial
        | unknown => exact meets_raise fun _ _ _ ↦ trivial

/-- The holder of an item sends once, and removes the item only if the message may be sent
again. -/
theorem meets_deliverClaimed (runId destination : String) :
    fence.setting.Meets p (FenceWorld.Holds p.1 (fence.deliveryKey runId destination))
      (fence.deliverClaimed runId destination) (fun _ _ ↦ True) fun _ _ ↦ True := by
  -- What the handler knows: the caller has sent, and a failure that looks retryable is that of
  -- the send.
  refine Meets.catching (U := fun failure w ↦ ∃ outcome,
    (failure.isRetryable = true → mayResend outcome = true) ∧
      FenceWorld.Sent p.1 outcome (fence.deliveryKey runId destination) w) ?_ fun failure ↦ ?_
  · refine Meets.bind meets_send fun outcome ↦ ?_
    cases outcome with
    | error failure => exact meets_raise fun w _ hsent ↦ ⟨.error failure, fun h ↦ h, hsent⟩
    | ok receipt =>
      have hdelivered : fence.setting.Meets p
          (FenceWorld.Sent p.1 (.ok receipt) (fence.deliveryKey runId destination))
          (fence.delivered runId destination) (fun _ _ ↦ True) fun failure w ↦
            failure.isRetryable = false ∧
              FenceWorld.Sent p.1 (.ok receipt) (fence.deliveryKey runId destination) w :=
        meets_update (by simp)
      rw [Prog.ofExcept_ok, Prog.ret_bind]
      refine Meets.bind (M := fun _ _ ↦ True) (hdelivered.conseq (fun _ _ hp ↦ hp)
        (fun _ _ _ hq ↦ hq) fun failure w _ hfailed ↦ ⟨.ok receipt, fun hyes ↦ ?_, hfailed.2⟩)
          fun _ ↦ meets_ret fun _ _ _ ↦ trivial
      rw [hfailed.1] at hyes
      cases hyes
  · split
    · next hretryable =>
      intro w hinv ⟨outcome, hmay, hsent⟩
      exact (Meets.bind (M := fun _ _ ↦ True) (meets_release (hmay hretryable)) fun _ ↦
        meets_ret fun _ _ _ ↦ trivial) w hinv hsent
    · intro w hinv ⟨outcome, _, hsent⟩
      have hfailed : fence.setting.Meets p
          (FenceWorld.Sent p.1 outcome (fence.deliveryKey runId destination))
          (fence.failed runId destination failure) (fun _ _ ↦ True) fun _ _ ↦ True :=
        (meets_update failure.status_ne_sending).conseq (fun _ _ hp ↦ hp) (fun _ _ _ hq ↦ hq)
          fun _ _ _ _ ↦ trivial
      exact (Meets.bind hfailed fun _ ↦ meets_ret fun _ _ _ ↦ trivial) w hinv hsent

theorem yields_deliverAll (runId : String) (patience : ℕ) (destinations : List String)
    (failures : List DeliveryFailure) :
    fence.setting.Yields p (fence.deliverAll runId patience destinations failures)
      fun _ ↦ True := by
  induction destinations generalizing failures with
  | nil =>
    cases failures with
    | nil => exact yields_ret trivial
    | cons failure failures => exact yields_raise
  | cons destination rest ih =>
    refine Meets.bind (meets_claim runId destination patience) fun claimed ↦ ?_
    split
    · exact (ih failures).pre fun _ _ _ ↦ trivial
    · next hclaimed =>
      have hgranted : claimed = true := by simpa using hclaimed
      refine Meets.bind (M := fun _ _ ↦ True)
        ((meets_deliverClaimed runId destination).pre fun w _ hw ↦ hw hgranted)
          fun failure ↦ (ih _).pre fun _ _ _ ↦ trivial

/-! ## Every run -/

/-- Nothing has been delivered. -/
def fresh : FenceWorld := ⟨fun _ ↦ none, fun _ ↦ []⟩

theorem verified : fence.setting.Verified fresh (fun _ _ _ ↦ True) fun _ _ _ ↦ True where
  init _ := ⟨.free, rfl, rfl⟩
  body p := (yields_deliverAll p.2.runId p.2.patience p.2.destinations []).pre fun _ _ _ ↦ trivial
  post_stable _ _ := stable_true
  fail_stable _ _ := stable_true

abbrev FenceConfig : Type :=
  Config FenceWorld FenceEffect FenceEffect.Answer DeliveryFailure Unit Call

/-- What the fence promises for one item. -/
structure AtMostOnce (fence : DeliveryFence) (c : FenceConfig) (key : String) : Prop where
  /-- Between two sends the first sender released the item, and its send had failed in a way that
  allows another. -/
  separated : ∀ before between rest p q outcome outcome',
    c.state.log key = before ++ .sent p outcome :: (between ++ .sent q outcome' :: rest) →
      .released p ∈ between ∧ mayResend outcome = true
  /-- Once an outcome is recorded, the item is for ever one that nobody is granted; and there is no
  send after that, except the one of a holder whose lease expired before it had sent. -/
  settled : ∀ item, c.state.table key = some item → item.status ≠ .sending →
    ∀ c', Leads fence.service .free c c' →
      (∃ item', c'.state.table key = some item' ∧ item'.status ≠ .sending) ∧
      ∃ later, c'.state.log key = c.state.log key ++ later ∧
        ((∀ event ∈ later, ∃ q status, event = .recorded q status) ∨
          item.status = .outcomeUnknown ∧ ∃ before p outcome rest,
            c.state.log key = before ++ [.granted p, .expired] ∧
            later = .sent p outcome :: rest ∧
              ∀ event ∈ rest, ∃ q status, event = .recorded q status)

/-- A result is delivered at most once to each destination, in every state of every run. -/
theorem delivered_at_most_once {c : FenceConfig} (hc : Reachable fence.service .free fresh c)
    (key : String) : fence.AtMostOnce c key := by
  have hV := @verified fence
  have hsound := hV.reachable hc
  have hinv : c.state.Consistent := hsound.inv
  refine ⟨fun before between rest p q outcome outcome' hlog ↦ ?_,
    fun item hitem hstatus c' hlead ↦ ?_⟩
  · obtain ⟨phase, hphase, -⟩ := hinv key
    rw [FenceWorld.phase, hlog] at hphase
    exact FencePhase.released_between hphase
  · have hinv' : c'.state.Consistent := (hV.leads hsound hlead).inv
    obtain ⟨later, hlater⟩ : c.state.log key <+: c'.state.log key :=
      hV.future (fun w w' ↦ w.log key <+: w'.log key) (fun _ ↦ List.prefix_rfl)
        (fun h h' ↦ List.IsPrefix.trans h h') (fun _ _ _ _ hg ↦ hg.log key) hsound hlead
    obtain ⟨phase, hphase, hfits⟩ := hinv key
    obtain ⟨phase', hphase', hfits'⟩ := hinv' key
    -- The log goes on where it stood, so the phase of the end follows from the phase of now.
    have hafter : phase.after later = some phase' := by
      rw [FenceWorld.phase, ← hlater, FencePhase.after_append] at hphase'
      rw [FenceWorld.phase] at hphase
      rwa [hphase] at hphase'
    -- A record that is not `sending` belongs to a delivery that is late or closed.
    cases phase with
    | free =>
      rw [FencePhase.Fits, hitem] at hfits
      cases hfits
    | held p =>
      obtain ⟨i, hi, hsending⟩ := hfits
      rw [hitem] at hi
      cases hi
      exact absurd hsending hstatus
    | inFlight p outcome =>
      obtain ⟨i, hi, hsending⟩ := hfits
      rw [hitem] at hi
      cases hi
      exact absurd hsending hstatus
    | late p =>
      obtain ⟨i, hi, hunknown⟩ := hfits
      rw [hitem] at hi
      cases hi
      rcases FencePhase.sent_of_late hafter with ⟨rfl, rfl⟩ | ⟨rfl, outcome, rest, rfl, hrest⟩
      · obtain ⟨i', hi', hunknown'⟩ := hfits'
        exact ⟨⟨i', hi', by rw [hunknown']; simp⟩, [], hlater.symm, .inl fun _ he ↦ (nomatch he)⟩
      · obtain ⟨before, hbefore⟩ := FencePhase.expired_of_late hphase
        exact ⟨hfits', _, hlater.symm, .inr ⟨hunknown, before, p, outcome, rest, hbefore, rfl,
          hrest⟩⟩
    | closed =>
      obtain ⟨rfl, hrecorded⟩ := FencePhase.recorded_of_closed hafter
      exact ⟨hfits', later, hlater.symm, .inl hrecorded⟩

end DeliveryFence

/-! ## A run

The third sender finds the lease of the second one expired, and records that the outcome is unknown.
The second one sends afterwards. -/

def sampleFence : DeliveryFence where
  digest destination := destination

def sampleKey : String := "delivery#run#slack"

/-- The first sender fails and releases the item. The second is granted it, and stands still for so
long that the third finds its lease expired. -/
def sampleDeliveries : List (Event DeliveryFence.Call FenceChoice) :=
  [.start 0 ⟨"run", ["slack"], 1⟩, .resume 0 {}, .resume 0 {},
    .resume 0 { outcome := .error (.knownNotDelivered "rate limited" true) }, .resume 0 {},
    .start 1 ⟨"run", ["slack"], 1⟩, .resume 1 {}, .resume 1 {},
    .start 2 ⟨"run", ["slack"], 1⟩, .resume 2 { clock := 121000 }, .resume 2 {}, .resume 2 {},
    .resume 2 {}]

/-- A result is sent again although its outcome was recorded as unknown: by a holder that had not
sent yet when its lease expired. -/
theorem late_sender_sends :
    ∃ c c', Reachable sampleFence.service .free DeliveryFence.fresh c ∧
      c.state.table sampleKey = some ⟨.outcomeUnknown, none⟩ ∧
      (∃ outcome, .sent 0 outcome ∈ c.state.log sampleKey) ∧
      sampleFence.service.step c (.resume 1 {}) = some c' ∧
      c'.state.log sampleKey = c.state.log sampleKey ++ [.sent 1 (.ok "receipt")] := by
  have hrun : ((sampleFence.service.run .free sampleDeliveries
      (.initial DeliveryFence.fresh)).map fun c ↦ (c.state.table sampleKey, c.state.log sampleKey,
        (sampleFence.service.step c (.resume 1 {})).map (·.state.log sampleKey))) =
      some (some ⟨.outcomeUnknown, none⟩, [.granted 0,
        .sent 0 (.error (.knownNotDelivered "rate limited" true)), .released 0, .granted 1,
        .expired], some [.granted 0, .sent 0 (.error (.knownNotDelivered "rate limited" true)),
          .released 0, .granted 1, .expired, .sent 1 (.ok "receipt")]) := by decide
  obtain ⟨c, hc, hfields⟩ := Option.map_eq_some_iff.mp hrun
  obtain ⟨htable, hfields⟩ := Prod.mk.inj hfields
  obtain ⟨hlog, hnext⟩ := Prod.mk.inj hfields
  obtain ⟨c', hstep, hlog'⟩ := Option.map_eq_some_iff.mp hnext
  refine ⟨c, c', Service.leads_of_run hc, htable,
    ⟨.error (.knownNotDelivered "rate limited" true), ?_⟩, hstep, ?_⟩
  · simp [hlog]
  · rw [hlog', hlog]
    rfl

/-- After that send, too, the item is one that nobody can be granted. -/
theorem late_sender_settled :
    ∃ c c', sampleFence.service.run .free sampleDeliveries (.initial DeliveryFence.fresh) = some c ∧
      sampleFence.service.step c (.resume 1 {}) = some c' ∧
      ∃ item, c'.state.table sampleKey = some item ∧ item.status ≠ .sending := by
  have hrun : ((sampleFence.service.run .free sampleDeliveries
      (.initial DeliveryFence.fresh)).map fun c ↦ (c.state.table sampleKey,
        (sampleFence.service.step c (.resume 1 {})).isSome)) =
      some (some ⟨.outcomeUnknown, none⟩, true) := by decide
  obtain ⟨c, hc, hfields⟩ := Option.map_eq_some_iff.mp hrun
  obtain ⟨htable, hnext⟩ := Prod.mk.inj hfields
  obtain ⟨c', hstep⟩ := Option.isSome_iff_exists.mp hnext
  have honce := DeliveryFence.delivered_at_most_once (Service.leads_of_run hc) sampleKey
  have hlead : Leads sampleFence.service .free c c' := Leads.refl.step (permits_free c _) hstep
  exact ⟨c, c', hc, hstep, (honce.settled _ htable (by simp) c' hlead).1⟩

end RatThings
