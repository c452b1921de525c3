import Mathlib.Data.List.Nodup
import RatThings.Library.RelyGuarantee
import RatThings.Native.Machines

/-!
# The machine slot is exclusive

A host has one slot for a machine, and a reservation that says for whom it is. Calls to start, stop,
fork and remove workers overlap, machines end when they like, and the end of one is noticed later
than it comes. This module proves of every run that at most one machine is alive, and that the
reservation names its Session.

## The construction

What the reservation says and what the machines do is related by `NativeRuntime.Tracked`: every
machine whose end was not noticed is registered, the reservation names the Session of every
registered machine, a running reservation has one, and a pending one has an operation. `Owns` is
what a call has made sure of before it makes a request; with it, each request keeps the relation
(`tracked_of_step`) and takes nothing from the other calls (`elsewhere_of_step`).

The two lemmas are proved request by request, and the methods of the runtime are then followed with
what they know: whether they hold the slot, and whether their Session has a machine (`During`).

## What the relation rests on

The operations of one Session take turns. `withDisposableWorker` takes turns under a name of its
own, boots a machine without stopping the one that is registered, and releases the reservation of
its Session whether it holds one or not. `Apart` is the condition that its Session is its own.
Without it the slot of a Session that is starting is taken over, and two machines are alive: that is
the first of the two runs at the end.
-/

namespace RatThings

open Concurrent Service Setting

namespace NativeRuntime

/-! ## The relation

The fields speak of the machines through three tables: those that were launched, those that are
registered under their Sessions, and the reservation. `held` makes the reservation name every
registered machine's Session, so there is one at most. -/

/-- An operation on this Session holds the slot. -/
def Pends (w : NativeRuntime) (sessionId : String) : Prop :=
  ∃ operation, w.reservation = some (.pending sessionId operation)

structure Tracked (w : NativeRuntime) : Prop where
  registered : ∀ sessionId vm, w.machines.get? sessionId = some vm →
    ∃ machine : NativeMachine, w.launched[vm]? = some machine ∧ machine.sessionId = sessionId ∧
      machine.exited = false
  present : ∀ (vm : ℕ) (machine : NativeMachine),
    w.launched[vm]? = some machine → machine.exited = false →
    w.machines.get? machine.sessionId = some vm
  dead : ∀ (vm : ℕ) (machine : NativeMachine), w.launched[vm]? = some machine → machine.exited →
    machine.alive = false
  held : ∀ sessionId vm, w.machines.get? sessionId = some vm →
    ∃ reservation, w.reservation = some reservation ∧ reservation.sessionId = sessionId
  running : ∀ sessionId, w.reservation = some (.running sessionId) →
    w.machines.get? sessionId ≠ none
  pending : ∀ sessionId, w.Pends sessionId → ∃ pid, w.Operates pid sessionId
  apart : ∀ pid pid' sessionId, w.Operates pid sessionId → w.Operates pid' sessionId → pid = pid'
  keys : (w.operations.map (·.key)).Nodup
  enrolled : ∀ op ∈ w.operations, (op.pid, op.key) ∈ w.admitted

theorem tracked_fresh : fresh.Tracked where
  registered _ _ h := nomatch h
  present _ _ h := nomatch h
  dead _ _ h := nomatch h
  held _ _ h := nomatch h
  running _ h := nomatch h
  pending _ h := nomatch h
  apart _ _ _ h := by
    obtain ⟨key, h⟩ := h
    cases h
  keys := List.nodup_nil
  enrolled _ h := nomatch h

variable {w : NativeRuntime} {pid vm : ℕ} {sessionId key : String}

/-- The relation is about the machines, the reservation and the operations. -/
theorem Tracked.congr {w' : NativeRuntime} (h : w.Tracked) (hlaunched : w'.launched = w.launched)
    (hmachines : w'.machines = w.machines) (hreservation : w'.reservation = w.reservation)
    (hoperations : w'.operations = w.operations) (hadmitted : w.admitted ⊆ w'.admitted) :
    w'.Tracked := by
  obtain ⟨launched, machines, reservation, unallocated, closing, admitted, operations⟩ := w
  obtain ⟨launched', machines', reservation', unallocated', closing', admitted', operations'⟩ := w'
  cases hlaunched
  cases hmachines
  cases hreservation
  cases hoperations
  exact ⟨h.registered, h.present, h.dead, h.held, h.running, h.pending, h.apart, h.keys,
    fun op hop ↦ hadmitted (h.enrolled op hop)⟩

/-! ### Operations

An operation is entered under a name, and two with one name take turns. Those of one Session have
one name each, except for those of a disposable worker. -/

theorem operates_enter {session : Option String} :
    ({ w with operations := w.operations ++ [⟨pid, key, session⟩] } : NativeRuntime).Operates vm
      sessionId ↔ w.Operates vm sessionId ∨ (vm = pid ∧ session = some sessionId) := by
  simp only [Operates, List.mem_append, List.mem_singleton, MachineOperation.mk.injEq]
  constructor
  · rintro ⟨key', h | ⟨hpid, -, hsession⟩⟩
    · exact .inl ⟨key', h⟩
    · exact .inr ⟨hpid, hsession.symm⟩
  · rintro (⟨key', h⟩ | ⟨hpid, hsession⟩)
    · exact ⟨key', .inl h⟩
    · exact ⟨key, .inr ⟨hpid, rfl, hsession.symm⟩⟩

/-- An operation begins, on a Session that no other operation is about. -/
theorem Tracked.enter (h : w.Tracked) {session : Option String}
    (hkey : ∀ op ∈ w.operations, op.key ≠ key) (hadmitted : (pid, key) ∈ w.admitted)
    (hsession : ∀ sessionId, session = some sessionId → ∀ op ∈ w.operations,
      op.session ≠ some sessionId) :
    ({ w with operations := w.operations ++ [⟨pid, key, session⟩] } : NativeRuntime).Tracked :=
  { h with
    pending := fun sessionId hp ↦ by
      obtain ⟨q, hq⟩ := h.pending sessionId hp
      exact ⟨q, operates_enter.mpr (.inl hq)⟩
    apart := by
      have hnew : ∀ q sessionId, session = some sessionId → ¬ w.Operates q sessionId :=
        fun q sessionId hs ⟨key', hop⟩ ↦ hsession sessionId hs _ hop rfl
      intro q q' sessionId hq hq'
      rcases operates_enter.mp hq with hold | ⟨hpid, hs⟩
      · rcases operates_enter.mp hq' with hold' | ⟨-, hs⟩
        · exact h.apart q q' sessionId hold hold'
        · exact absurd hold (hnew q sessionId hs)
      · rcases operates_enter.mp hq' with hold' | ⟨hpid', -⟩
        · exact absurd hold' (hnew q' sessionId hs)
        · exact hpid.trans hpid'.symm
    keys := by
      rw [List.map_append, List.map_singleton, List.nodup_append]
      refine ⟨h.keys, List.nodup_singleton _, fun a ha b hb hab ↦ ?_⟩
      obtain ⟨op, hop, rfl⟩ := List.mem_map.mp ha
      exact hkey op hop (hab.trans (List.mem_singleton.mp hb))
    enrolled := fun op hop ↦ by
      rcases List.mem_append.mp hop with hop | hop
      · exact h.enrolled op hop
      · rw [List.mem_singleton.mp hop]
        exact hadmitted }

/-- Two operations do not take turns under one name at a time. -/
theorem Tracked.eq_of_key (h : w.Tracked) {op op' : MachineOperation} (hop : op ∈ w.operations)
    (hop' : op' ∈ w.operations) (hkey : op.key = op'.key) : op = op' :=
  List.inj_on_of_nodup_map h.keys hop hop' hkey

/-- An operation that does not hold the slot ends. -/
theorem Tracked.leave (h : w.Tracked) {session : Option String}
    (hop : ⟨pid, key, session⟩ ∈ w.operations)
    (hpends : ∀ sessionId, session = some sessionId → ¬ w.Pends sessionId) :
    ({ w with
      operations := w.operations.filter (·.key ≠ key)
      admitted := w.admitted.filter (· ≠ (pid, key)) } : NativeRuntime).Tracked :=
  { h with
    pending := by
      intro sessionId hp
      obtain ⟨q, key', hq⟩ := h.pending sessionId hp
      refine ⟨q, key', List.mem_filter.mpr ⟨hq, decide_eq_true fun hkey ↦ ?_⟩⟩
      have hsame : (⟨q, key', some sessionId⟩ : MachineOperation) = ⟨pid, key, session⟩ :=
        h.eq_of_key hq hop hkey
      exact hpends sessionId (congrArg (·.session) hsame).symm hp
    apart := fun q q' sessionId ⟨key, hq⟩ ⟨key', hq'⟩ ↦
      h.apart q q' sessionId ⟨key, (List.mem_filter.mp hq).1⟩ ⟨key', (List.mem_filter.mp hq').1⟩
    keys := h.keys.sublist (List.filter_sublist.map _)
    enrolled := by
      intro op hmem
      obtain ⟨hmem, hkey⟩ := List.mem_filter.mp hmem
      refine List.mem_filter.mpr ⟨h.enrolled op hmem, decide_eq_true fun heq ↦ ?_⟩
      exact of_decide_eq_true hkey (Prod.mk.inj heq).2 }

/-- The operations of this call that have no Session yet get one. -/
def identify (w : NativeRuntime) (pid : ℕ) (sessionId : String) : NativeRuntime :=
  { w with operations := w.operations.map fun op ↦
      if op.pid = pid ∧ op.session = none then { op with session := some sessionId } else op }

theorem operates_identify {q : ℕ} {sessionId' : String} :
    (w.identify pid sessionId).Operates q sessionId' ↔ w.Operates q sessionId' ∨
      (q = pid ∧ sessionId' = sessionId ∧ ∃ key, ⟨pid, key, none⟩ ∈ w.operations) := by
  simp only [Operates, identify, List.mem_map]
  constructor
  · rintro ⟨key, op, hop, heq⟩
    split at heq
    · next hnone =>
      obtain ⟨opPid, opKey, opSession⟩ := op
      obtain ⟨hpid, hsession⟩ := hnone
      cases heq
      cases hsession
      exact .inr ⟨hpid, rfl, opKey, hpid ▸ hop⟩
    · exact .inl ⟨key, heq ▸ hop⟩
  · rintro (⟨key, hop⟩ | ⟨rfl, rfl, key, hop⟩)
    · exact ⟨key, _, hop, by simp⟩
    · exact ⟨key, _, hop, by simp⟩

theorem not_operates_of_isNew (h : w.isNew sessionId) (q : ℕ) : ¬ w.Operates q sessionId := by
  rintro ⟨key, hop⟩
  simp only [isNew, Bool.and_eq_true, List.all_eq_true] at h
  simpa using h.1 _ hop

theorem Tracked.identified (h : w.Tracked) (hnew : w.isNew sessionId) :
    (w.identify pid sessionId).Tracked :=
  { h with
    pending := fun sessionId' hp ↦ by
      obtain ⟨q, hq⟩ := h.pending sessionId' hp
      exact ⟨q, operates_identify.mpr (.inl hq)⟩
    apart := by
      intro q q' sessionId' hq hq'
      rcases operates_identify.mp hq with hold | ⟨hpid, hs, -⟩
      · rcases operates_identify.mp hq' with hold' | ⟨-, hs, -⟩
        · exact h.apart q q' sessionId' hold hold'
        · exact absurd (hs ▸ hold) (not_operates_of_isNew hnew q)
      · rcases operates_identify.mp hq' with hold' | ⟨hpid', -, -⟩
        · exact absurd (hs ▸ hold') (not_operates_of_isNew hnew q')
        · exact hpid.trans hpid'.symm
    keys := by
      have hkeys : (w.identify pid sessionId).operations.map (·.key) =
          w.operations.map (·.key) := by
        rw [identify, List.map_map]
        refine List.map_congr_left fun op _ ↦ ?_
        simp only [Function.comp_apply]
        split <;> rfl
      rw [hkeys]
      exact h.keys
    enrolled := by
      intro op hop
      obtain ⟨op', hop', rfl⟩ := List.mem_map.mp hop
      have hmem : (op'.pid, op'.key) ∈ w.admitted := h.enrolled op' hop'
      split <;> exact hmem }

/-! ### The reservation

Only an operation of a Session reserves the slot for it or gives it up. -/

/-- The slot is reserved for an operation of its own Session. -/
theorem Tracked.reserve (h : w.Tracked) (hop : w.Operates pid sessionId)
    (hslot : w.reservation = none ∨ w.reservation = some (.running sessionId))
    (operation : ReservedOperation) :
    ({ w with reservation := some (.pending sessionId operation) } : NativeRuntime).Tracked :=
  { h with
    held := by
      intro sessionId' vm hvm
      obtain ⟨reservation, hr, hs⟩ := h.held sessionId' vm hvm
      rcases hslot with hnone | hrunning
      · rw [hnone] at hr
        cases hr
      · rw [hrunning] at hr
        cases hr
        exact ⟨_, rfl, hs⟩
    running := fun _ hr ↦ by cases hr
    pending := by
      rintro sessionId' ⟨operation', hr⟩
      cases hr
      exact ⟨pid, hop⟩ }

/-- An operation hands the slot over to the machine it leaves, if it leaves one. -/
theorem Tracked.release (h : w.Tracked) : (w.releaseOperation sessionId).Tracked := by
  unfold releaseOperation
  split
  · next hsession =>
    obtain ⟨reservation, hr, hs⟩ := (Option.any_eq_true _ _).mp hsession
    refine { h with held := ?_, running := ?_, pending := ?_ }
    · intro sessionId' vm hvm
      obtain ⟨reservation', hr', hs'⟩ := h.held sessionId' vm hvm
      rw [hr] at hr'
      cases hr'
      have hsame : sessionId' = sessionId := hs'.symm.trans (of_decide_eq_true hs)
      refine ⟨.running sessionId, ?_, hsame.symm⟩
      rw [← hsame, hvm]
      rfl
    · intro sessionId' hrunning
      dsimp only at hrunning
      split at hrunning
      · next hsome =>
        cases hrunning
        exact fun hnone ↦ by simp [hnone] at hsome
      · cases hrunning
    · rintro sessionId' ⟨operation, hpending⟩
      dsimp only at hpending
      split at hpending <;> cases hpending
  · exact h

/-! ### Machines

A machine is launched for the operation that holds the slot. When it ends it stays registered until
the end is noticed, and so does the reservation. -/

theorem getElem?_launch {disposable : Bool} {vm : ℕ} {machine : NativeMachine} :
    (w.launch sessionId disposable).launched[vm]? = some machine ↔
      w.launched[vm]? = some machine ∨
        (vm = w.launched.length ∧ machine = ⟨sessionId, disposable, true, false⟩) := by
  simp only [launch]
  by_cases hlt : vm < w.launched.length
  · rw [List.getElem?_append_left hlt]
    exact ⟨.inl, fun h ↦ h.resolve_right fun ⟨he, _⟩ ↦ absurd he (Nat.ne_of_lt hlt)⟩
  · have hnone : w.launched[vm]? = none := List.getElem?_eq_none (Nat.le_of_not_lt hlt)
    rw [List.getElem?_append_right (Nat.le_of_not_lt hlt), hnone]
    by_cases heq : vm = w.launched.length
    · rw [heq, Nat.sub_self]
      simp [eq_comm]
    · have hpos : vm - w.launched.length ≠ 0 := by omega
      obtain ⟨n, hn⟩ := Nat.exists_eq_succ_of_ne_zero hpos
      rw [hn]
      simp [heq]

/-- A machine is launched for the operation that holds the slot, when its Session has none. -/
theorem Tracked.launched (h : w.Tracked) (disposable : Bool) (hpends : w.Pends sessionId)
    (hnone : w.machines.get? sessionId = none) : (w.launch sessionId disposable).Tracked := by
  have hget : ∀ sessionId' vm, (w.launch sessionId disposable).machines.get? sessionId' = some vm ↔
      (sessionId' = sessionId ∧ vm = w.launched.length) ∨ w.machines.get? sessionId' = some vm := by
    intro sessionId' vm
    simp only [launch]
    by_cases hs : sessionId' = sessionId
    · rw [hs, OrderedMap.get?_set_self, hnone]
      simp [eq_comm]
    · rw [OrderedMap.get?_set_of_ne _ hs]
      simp [hs]
  obtain ⟨operation, hpending⟩ := hpends
  refine { h with registered := ?_, present := ?_, dead := ?_, held := ?_, running := ?_ }
  · intro sessionId' vm hvm
    rcases (hget sessionId' vm).mp hvm with ⟨rfl, rfl⟩ | hvm
    · exact ⟨_, getElem?_launch.mpr (.inr ⟨rfl, rfl⟩), rfl, rfl⟩
    · obtain ⟨machine, hmachine, hfields⟩ := h.registered sessionId' vm hvm
      exact ⟨machine, getElem?_launch.mpr (.inl hmachine), hfields⟩
  · intro vm machine hmachine hexited
    rcases getElem?_launch.mp hmachine with hmachine | ⟨rfl, rfl⟩
    · exact (hget _ vm).mpr (.inr (h.present vm machine hmachine hexited))
    · exact (hget _ _).mpr (.inl ⟨rfl, rfl⟩)
  · intro vm machine hmachine hexited
    rcases getElem?_launch.mp hmachine with hmachine | ⟨rfl, rfl⟩
    · exact h.dead vm machine hmachine hexited
    · cases hexited
  · intro sessionId' vm hvm
    rcases (hget sessionId' vm).mp hvm with ⟨rfl, -⟩ | hvm
    · exact ⟨_, hpending, rfl⟩
    · exact h.held sessionId' vm hvm
  · intro sessionId' hrunning
    have hrunning : w.reservation = some (.running sessionId') := hrunning
    rw [hpending] at hrunning
    cases hrunning

theorem getElem?_updateMachine {f : NativeMachine → NativeMachine} {vm' : ℕ} :
    (w.updateMachine vm f).launched[vm']? =
      (w.launched[vm']?).map fun machine ↦ if vm = vm' then f machine else machine := by
  rw [updateMachine, List.getElem?_modify]
  split <;> simp

/-- A machine exits; nobody has noticed. -/
theorem Tracked.died (h : w.Tracked) :
    (w.updateMachine vm fun machine ↦ { machine with alive := false }).Tracked := by
  have hback : ∀ (vm' : ℕ) (machine : NativeMachine),
      (w.updateMachine vm fun m ↦ { m with alive := false }).launched[vm']? = some machine →
      ∃ machine', w.launched[vm']? = some machine' ∧ machine'.sessionId = machine.sessionId ∧
        machine'.exited = machine.exited ∧ (machine'.alive = false → machine.alive = false) := by
    intro vm' machine hmachine
    rw [getElem?_updateMachine] at hmachine
    obtain ⟨machine', hmachine', rfl⟩ := Option.map_eq_some_iff.mp hmachine
    refine ⟨machine', hmachine', ?_⟩
    split
    · exact ⟨rfl, rfl, fun _ ↦ rfl⟩
    · exact ⟨rfl, rfl, id⟩
  refine { h with registered := ?_, present := ?_, dead := ?_ }
  · intro sessionId' vm' hvm
    obtain ⟨machine, hmachine, hs, he⟩ := h.registered sessionId' vm' hvm
    refine ⟨_, by rw [getElem?_updateMachine, hmachine, Option.map_some], ?_⟩
    split <;> exact ⟨hs, he⟩
  · intro vm' machine hmachine hexited
    obtain ⟨machine', hmachine', hs, he, -⟩ := hback vm' machine hmachine
    rw [← hs]
    exact h.present vm' machine' hmachine' (he.trans hexited)
  · intro vm' machine hmachine hexited
    obtain ⟨machine', hmachine', -, he, halive⟩ := hback vm' machine hmachine
    exact halive (h.dead vm' machine' hmachine' (he.trans hexited))

/-- A machine whose end was noticed is not registered any more. -/
theorem Tracked.unregistered_of_exited (h : w.Tracked) (hexited : w.hasExited vm) :
    w.machines.get? sessionId ≠ some vm := by
  intro hvm
  obtain ⟨machine, hmachine, -, he⟩ := h.registered sessionId vm hvm
  rw [hasExited, hmachine, Option.any_some, he] at hexited
  cases hexited

/-- The reservation names one Session, so no other has a machine. -/
theorem Tracked.eq_of_registered (h : w.Tracked) {sessionId' : String} {vm' : ℕ}
    (hvm : w.machines.get? sessionId = some vm) (hvm' : w.machines.get? sessionId' = some vm') :
    sessionId' = sessionId := by
  obtain ⟨reservation, hr, hs⟩ := h.held sessionId vm hvm
  obtain ⟨reservation', hr', hs'⟩ := h.held sessionId' vm' hvm'
  rw [hr] at hr'
  cases hr'
  exact hs'.symm.trans hs

section ExitCallback

variable {machine : NativeMachine}

theorem unregister_eq : w.unregister sessionId vm = { w with
    machines :=
      if w.machines.get? sessionId = some vm then w.machines.erase sessionId else w.machines } := by
  unfold unregister
  split <;> rfl

theorem freeRunning_eq : w.freeRunning sessionId = { w with
    reservation :=
      if w.reservation = some (.running sessionId) then none else w.reservation } := by
  unfold freeRunning
  split <;> rfl

/-- The end of a machine takes it out of the table, and frees the slot it runs in and no other. -/
theorem exitCallback_eq : w.exitCallback vm machine =
    { w.updateMachine vm fun m ↦ { m with exited := true } with
      machines :=
        if w.machines.get? machine.sessionId = some vm then w.machines.erase machine.sessionId
        else w.machines
      reservation :=
        if w.reservation = some (.running machine.sessionId) then none else w.reservation } := by
  rw [exitCallback, unregister_eq, freeRunning_eq]
  rfl

@[simp]
theorem operations_exitCallback : (w.exitCallback vm machine).operations = w.operations := by
  rw [exitCallback_eq]
  rfl

@[simp]
theorem admitted_exitCallback : (w.exitCallback vm machine).admitted = w.admitted := by
  rw [exitCallback_eq]
  rfl

theorem launched_exitCallback : (w.exitCallback vm machine).launched =
    (w.updateMachine vm fun m ↦ { m with exited := true }).launched := by
  rw [exitCallback_eq]

theorem reservation_exitCallback : (w.exitCallback vm machine).reservation =
    if w.reservation = some (.running machine.sessionId) then none else w.reservation := by
  rw [exitCallback_eq]

/-- Once the end of the registered machine is noticed, no Session has one. -/
theorem Tracked.machines_exitCallback (h : w.Tracked)
    (hvm : w.machines.get? machine.sessionId = some vm) (sessionId' : String) :
    (w.exitCallback vm machine).machines.get? sessionId' = none := by
  have hmachines : (w.exitCallback vm machine).machines = w.machines.erase machine.sessionId := by
    rw [exitCallback_eq]
    exact if_pos hvm
  rw [hmachines]
  by_cases hsame : sessionId' = machine.sessionId
  · rw [hsame]
    exact OrderedMap.get?_erase_self _ _
  · rw [OrderedMap.get?_erase_of_ne _ hsame, Option.eq_none_iff_forall_ne_some]
    exact fun vm' hvm' ↦ hsame (h.eq_of_registered hvm hvm')

/-- A machine seen after the end of another was noticed is that one, or was there before. -/
theorem machine_of_exitCallback (hmachine : w.launched[vm]? = some machine)
    (halive : machine.alive = false) {vm' : ℕ} {machine' : NativeMachine}
    (hmachine' : (w.exitCallback vm machine).launched[vm']? = some machine') :
    (vm' = vm ∧ machine'.alive = false ∧ machine'.exited) ∨
      (vm' ≠ vm ∧ w.launched[vm']? = some machine') := by
  rw [launched_exitCallback, getElem?_updateMachine] at hmachine'
  obtain ⟨m, hm, rfl⟩ := Option.map_eq_some_iff.mp hmachine'
  by_cases heq : vm = vm'
  · subst heq
    rw [hmachine] at hm
    cases hm
    exact .inl ⟨rfl, by simp [halive], by simp⟩
  · exact .inr ⟨Ne.symm heq, by simpa [heq] using hm⟩

/-- The end of a machine is noticed: it is the one that was registered, and the slot is free unless
an operation holds it. -/
theorem Tracked.exitNoticed (h : w.Tracked) (hmachine : w.launched[vm]? = some machine)
    (halive : machine.alive = false) (hexited : machine.exited = false) :
    (w.exitCallback vm machine).Tracked := by
  have hvm : w.machines.get? machine.sessionId = some vm := h.present vm machine hmachine hexited
  have hnone := h.machines_exitCallback hvm
  refine ⟨?_, ?_, ?_, ?_, ?_, ?_, ?_, ?_, ?_⟩
  · intro sessionId' vm' hvm'
    rw [hnone] at hvm'
    cases hvm'
  · intro vm' machine' hmachine' he
    rcases machine_of_exitCallback hmachine halive hmachine' with
      ⟨-, -, hexited'⟩ | ⟨hne, hmachine'⟩
    · rw [he] at hexited'
      cases hexited'
    · have hvm' : w.machines.get? machine'.sessionId = some vm' :=
        h.present vm' machine' hmachine' he
      rw [h.eq_of_registered hvm hvm', hvm] at hvm'
      exact absurd (Option.some.inj hvm').symm hne
  · intro vm' machine' hmachine' he
    rcases machine_of_exitCallback hmachine halive hmachine' with ⟨-, hdead, -⟩ | ⟨-, hmachine'⟩
    · exact hdead
    · exact h.dead vm' machine' hmachine' he
  · intro sessionId' vm' hvm'
    rw [hnone] at hvm'
    cases hvm'
  · intro sessionId' hrunning
    rw [reservation_exitCallback] at hrunning
    split at hrunning
    · cases hrunning
    · next hother =>
      -- The slot of a running machine is the one of the machine that ended.
      obtain ⟨reservation, hr, hs⟩ := h.held _ vm hvm
      rw [hr] at hrunning hother
      cases hrunning
      exact absurd (congrArg (some ∘ Reservation.running) hs) hother
  · rintro sessionId' ⟨operation, hpending⟩
    rw [reservation_exitCallback] at hpending
    split at hpending
    · cases hpending
    · obtain ⟨q, key', hq⟩ := h.pending sessionId' ⟨operation, hpending⟩
      exact ⟨q, key', operations_exitCallback.symm ▸ hq⟩
  · rintro q q' sessionId' ⟨key', hq⟩ ⟨key'', hq'⟩
    rw [operations_exitCallback] at hq hq'
    exact h.apart q q' sessionId' ⟨key', hq⟩ ⟨key'', hq'⟩
  · rw [operations_exitCallback]
    exact h.keys
  · rw [operations_exitCallback, admitted_exitCallback]
    exact h.enrolled

end ExitCallback

end NativeRuntime

namespace LocalNativeRuntime

/-! ## What a call may request

One case for every request. Most of them leave the relation alone; the others were dealt with
above, and what is left is that the guard of the request, and what its caller knows, give the
hypotheses. -/

/-- An operation begins only on a Session that no other operation is about, and that of a disposable
worker only on one without a machine. -/
def entersApart (w : NativeRuntime) : MachineRequest → Bool
  | .enter key (some sessionId) => w.operations.all (·.session ≠ some sessionId) &&
      (key ≠ "native-release-probe" || (w.machines.get? sessionId).isNone)
  | _ => true

def Apart : Discipline NativeRuntime MachineRequest Call MachineChoice where
  starts _ _ _ := True
  answers _ e _ w := entersApart w e

instance : Apart.Checked :=
  ⟨fun _ _ _ ↦ .isTrue trivial, fun _ e _ w ↦ inferInstanceAs (Decidable (entersApart w e))⟩

/-- What a call has made sure of before it makes a request. -/
def Owns (pid : ℕ) : MachineRequest → NativeRuntime → Prop
  | .enter key _, w => (pid, key) ∈ w.admitted
  | .leave key, w => ∃ session, ⟨pid, key, session⟩ ∈ w.operations ∧
      ∀ sessionId, session = some sessionId → ¬ w.Pends sessionId
  | .reserve sessionId .., w => w.Operates pid sessionId
  | .releaseOperation sessionId, w => w.Operates pid sessionId
  | .launch sessionId _, w =>
    w.Operates pid sessionId ∧ w.Pends sessionId ∧ w.machines.get? sessionId = none
  | .unregister _ vm, w => w.hasExited vm
  | .settleStop sessionId vm, w =>
    w.machines.get? sessionId = some vm ∨ w.machines.get? sessionId = none
  | _, _ => True

/-- The request changes nothing, whatever is answered. -/
def Quiet : MachineRequest → Prop
  | .admitOperation _ | .enter .. | .leave _ | .probeSession | .reserve .. | .releaseOperation _
  | .launch .. | .unregister .. | .settleStop .. | .setUnallocated .. | .beginClose | .die _
  | .exitCallback _ => False
  | _ => True

variable {w w' : NativeRuntime} {pid vm : ℕ} {sessionId key : String} {e : MachineRequest}
  {x : MachineChoice} {a : e.Answer}

theorem handle_quiet (ha : handleNative pid e x w = some (a, w')) (he : Quiet e) : w' = w := by
  cases e <;> simp_all [handleNative, Quiet]

/-- A reservation takes a slot that is free, or that a machine of the same Session runs in. -/
theorem slot_of_admission {provenance : NativeProvenance} {facts : NativeHostFacts}
    {available needed : ℕ} {resources : NativeResources}
    (h : w.admission sessionId provenance facts available needed = .admitted resources) :
    w.reservation = none ∨ w.reservation = some (.running sessionId) := by
  have hslot : w.reservation.all (· = .running sessionId) = true := slotAvailable_of_admitted h
  cases hr : w.reservation with
  | none => exact .inl rfl
  | some reservation =>
    rw [hr, Option.all_some] at hslot
    exact .inr (congrArg some (of_decide_eq_true hslot))

/-- A slot that may be taken is held by no operation. -/
theorem not_pending_of_slot {sessionId' : String} {operation : ReservedOperation}
    (hslot : w.reservation = none ∨ w.reservation = some (.running sessionId')) :
    w.reservation ≠ some (.pending sessionId operation) := by
  intro hpending
  rcases hslot with hnone | hrunning
  · rw [hpending] at hnone
    cases hnone
  · rw [hpending] at hrunning
    cases hrunning

/-- Once the end of a machine was noticed, forgetting it changes nothing. -/
theorem unregister_of_exited (h : w.Tracked) (hexited : w.hasExited vm) :
    w.unregister sessionId vm = w :=
  if_neg (h.unregistered_of_exited hexited)

theorem settleStop_eq (h : w.Tracked) (hown : Owns pid (.settleStop sessionId vm) w) :
    (if w.hasExited vm then (w.unregister sessionId vm).freeRunning sessionId else w) = w := by
  split
  · next hexited =>
    have hnone : w.machines.get? sessionId = none :=
      hown.resolve_left (h.unregistered_of_exited hexited)
    rw [unregister_of_exited h hexited]
    exact if_neg fun hrunning ↦ h.running sessionId hrunning hnone
  · rfl

/-- **The step lemma.** -/
theorem tracked_of_step (h : w.Tracked) (hown : Owns pid e w) (hx : entersApart w e)
    (ha : handleNative pid e x w = some (a, w')) : w'.Tracked := by
  cases e with
  | admitOperation key =>
    simp only [handleNative] at ha
    split at ha <;> cases ha
    · exact h
    · exact h.congr rfl rfl rfl rfl (List.subset_cons_self _ _)
  | enter key session =>
    simp only [handleNative] at ha
    split at ha <;> cases ha
    next hkey =>
    refine h.enter (fun op hop heq ↦ hkey ?_) hown fun sessionId hs op hop ↦ ?_
    · exact List.any_eq_true.mpr ⟨op, hop, decide_eq_true heq⟩
    · subst hs
      -- This is where two operations of one Session are kept apart.
      simp only [entersApart, Bool.and_eq_true, List.all_eq_true] at hx
      exact of_decide_eq_true (hx.1 op hop)
  | leave key =>
    cases ha
    obtain ⟨session, hop, hpends⟩ := hown
    exact h.leave hop hpends
  | probeSession =>
    simp only [handleNative] at ha
    split at ha <;> cases ha
    next hnew => exact h.identified hnew
  | reserve sessionId operation provenance facts available needed =>
    simp only [handleNative] at ha
    split at ha <;> cases ha
    · next hadmitted => exact h.reserve hown (slot_of_admission hadmitted) operation
    · exact h
  | releaseOperation sessionId =>
    cases ha
    exact h.release
  | launch sessionId disposable =>
    simp only [handleNative] at ha
    split at ha <;> cases ha
    · exact h.launched disposable hown.2.1 hown.2.2
    · exact h
  | unregister sessionId vm =>
    cases ha
    rw [unregister_of_exited h hown]
    exact h
  | settleStop sessionId vm =>
    cases ha
    rw [settleStop_eq h hown]
    exact h
  | setUnallocated sessionId absent =>
    cases ha
    exact h.congr rfl rfl rfl rfl (List.Subset.refl _)
  | beginClose =>
    cases ha
    exact h.congr rfl rfl rfl rfl (List.Subset.refl _)
  | die vm =>
    simp only [handleNative] at ha
    split at ha <;> cases ha
    exact h.died
  | exitCallback vm =>
    simp only [handleNative] at ha
    split at ha
    · cases ha
    next machine hmachine =>
    split at ha <;> cases ha
    next hover =>
    simp only [Bool.or_eq_true, not_or, Bool.not_eq_true] at hover
    exact h.exitNoticed hmachine hover.1 hover.2
  | _ =>
    rw [handle_quiet ha trivial]
    exact h

/-! ## What the other calls leave alone

A call that operates on a Session relies on its own operation, on the slot it holds and on the
machine it looked up. The steps of the others keep all three, since they operate elsewhere. -/

/-- What no step of another call takes from this one. -/
structure Elsewhere (pid : ℕ) (w w' : NativeRuntime) : Prop where
  operations : ∀ key session, ⟨pid, key, session⟩ ∈ w.operations →
    ⟨pid, key, session⟩ ∈ w'.operations
  pends : ∀ sessionId, w.Operates pid sessionId → (w'.Pends sessionId ↔ w.Pends sessionId)
  machines : ∀ sessionId, w.Operates pid sessionId ∨ (w.closing ∧ w.admitted = []) →
    w'.machines.get? sessionId = w.machines.get? sessionId ∨ w'.machines.get? sessionId = none
  admitted : ∀ key, (pid, key) ∈ w.admitted → (pid, key) ∈ w'.admitted
  exited : ∀ vm, w.hasExited vm → w'.hasExited vm
  closing : w.closing → w'.closing
  closed : w.closing ∧ w.admitted = [] → w'.closing ∧ w'.admitted = []

theorem Elsewhere.refl (pid : ℕ) (w : NativeRuntime) : Elsewhere pid w w :=
  ⟨fun _ _ h ↦ h, fun _ _ ↦ .rfl, fun _ _ ↦ .inl rfl, fun _ h ↦ h, fun _ h ↦ h, id, id⟩

theorem not_admitted_nil (h : w.Tracked) (hop : w.Operates pid sessionId) : w.admitted ≠ [] := by
  obtain ⟨key, hop⟩ := hop
  exact List.ne_nil_of_mem (h.enrolled _ hop)

/-- Two calls do not operate on one Session. -/
theorem session_ne (h : w.Tracked) {q : ℕ} {sessionId' : String} (hq : q ≠ pid)
    (hop : w.Operates q sessionId') (hop' : w.Operates pid sessionId) : sessionId ≠ sessionId' :=
  fun hsame ↦ hq (h.apart q pid sessionId' hop (hsame ▸ hop'))

theorem machines_erase (sessionId sessionId' : String) :
    (w.machines.erase sessionId).get? sessionId' = w.machines.get? sessionId' ∨
      (w.machines.erase sessionId).get? sessionId' = none := by
  by_cases hsame : sessionId' = sessionId
  · rw [hsame]
    exact .inr (OrderedMap.get?_erase_self _ _)
  · exact .inl (OrderedMap.get?_erase_of_ne _ hsame)

theorem hasExited_updateMachine {f : NativeMachine → NativeMachine}
    (hf : ∀ machine, machine.exited → (f machine).exited) {vm' : ℕ} (h : w.hasExited vm') :
    (w.updateMachine vm f).hasExited vm' := by
  obtain ⟨machine, hmachine, he⟩ := (Option.any_eq_true _ _).mp h
  rw [NativeRuntime.hasExited, NativeRuntime.getElem?_updateMachine, hmachine, Option.map_some,
    Option.any_some]
  split
  · exact hf machine he
  · exact he

theorem Elsewhere.trans {w'' : NativeRuntime} (h : Elsewhere pid w w') (h' : Elsewhere pid w' w'') :
    Elsewhere pid w w'' := by
  have hoperates : ∀ sessionId, w.Operates pid sessionId → w'.Operates pid sessionId :=
    fun _ ⟨key, hop⟩ ↦ ⟨key, h.operations _ _ hop⟩
  refine ⟨fun _ _ hop ↦ h'.operations _ _ (h.operations _ _ hop), fun sessionId hop ↦ ?_,
    fun sessionId hop ↦ ?_, fun _ hk ↦ h'.admitted _ (h.admitted _ hk),
    fun _ he ↦ h'.exited _ (h.exited _ he), fun hc ↦ h'.closing (h.closing hc),
    fun hc ↦ h'.closed (h.closed hc)⟩
  · exact (h'.pends sessionId (hoperates sessionId hop)).trans (h.pends sessionId hop)
  · rcases h'.machines sessionId (hop.imp (hoperates sessionId) h.closed) with hsame | hnone
    · rw [hsame]
      exact h.machines sessionId hop
    · exact .inr hnone

/-- The end of a machine takes the slot from no operation. -/
theorem elsewhere_of_exitCallback (machine : NativeMachine) :
    Elsewhere pid w (w.exitCallback vm machine) := by
  have hnoticed : Elsewhere pid w (w.updateMachine vm fun m ↦ { m with exited := true }) := by
    refine { Elsewhere.refl pid w with exited := fun _ h ↦ hasExited_updateMachine ?_ h }
    exact fun _ _ ↦ rfl
  have hunregister (w : NativeRuntime) : Elsewhere pid w (w.unregister machine.sessionId vm) := by
    unfold NativeRuntime.unregister
    split
    · exact { Elsewhere.refl pid w with
        machines := fun sessionId _ ↦ machines_erase machine.sessionId sessionId }
    · exact .refl pid w
  have hfree (w : NativeRuntime) : Elsewhere pid w (w.freeRunning machine.sessionId) := by
    unfold NativeRuntime.freeRunning
    split
    · next hrunning =>
      refine { Elsewhere.refl pid w with pends := fun sessionId _ ↦ ⟨?_, ?_⟩ }
      · rintro ⟨operation, hr⟩
        cases hr
      · rintro ⟨operation, hr⟩
        rw [hrunning] at hr
        cases hr
    · exact .refl pid w
  exact hnoticed.trans ((hunregister _).trans (hfree _))

/-- The operation of another call ends. -/
theorem elsewhere_of_leave (h : w.Tracked) {q : ℕ} (hq : q ≠ pid) {session : Option String}
    (hop : ⟨q, key, session⟩ ∈ w.operations) :
    Elsewhere pid w { w with
      operations := w.operations.filter (·.key ≠ key)
      admitted := w.admitted.filter (· ≠ (q, key)) } := by
  refine { Elsewhere.refl pid w with operations := ?_, admitted := ?_, closed := ?_ }
  · intro key' session' hmine
    refine List.mem_filter.mpr ⟨hmine, decide_eq_true fun hkey ↦ hq ?_⟩
    exact congrArg (·.pid) (h.eq_of_key hop hmine hkey.symm)
  · intro key' hmine
    refine List.mem_filter.mpr ⟨hmine, decide_eq_true fun heq ↦ hq ?_⟩
    exact (Prod.mk.inj heq).1.symm
  · intro hclosed
    exact ⟨hclosed.1, by rw [hclosed.2, List.filter_nil]⟩

/-- Another call takes the slot: it is not the one an operation of this call holds. -/
theorem elsewhere_of_reserve (h : w.Tracked) {q : ℕ} (hq : q ≠ pid) (hop : w.Operates q sessionId)
    (hslot : w.reservation = none ∨ w.reservation = some (.running sessionId))
    (operation : ReservedOperation) :
    Elsewhere pid w { w with reservation := some (.pending sessionId operation) } := by
  refine { Elsewhere.refl pid w with pends := fun sessionId' hop' ↦ ?_ }
  have hne : sessionId' ≠ sessionId := session_ne h hq hop hop'
  constructor
  · rintro ⟨operation', hr⟩
    cases hr
    exact absurd rfl hne
  · rintro ⟨operation', hr⟩
    exact absurd hr (not_pending_of_slot hslot)

/-- Another call gives up the slot of its own Session. -/
theorem elsewhere_of_release (h : w.Tracked) {q : ℕ} (hq : q ≠ pid)
    (hop : w.Operates q sessionId) : Elsewhere pid w (w.releaseOperation sessionId) := by
  unfold NativeRuntime.releaseOperation
  split
  · next hsession =>
    obtain ⟨reservation, hr, hs⟩ := (Option.any_eq_true _ _).mp hsession
    refine { Elsewhere.refl pid w with pends := fun sessionId' hop' ↦ ?_ }
    have hne : sessionId' ≠ sessionId := session_ne h hq hop hop'
    constructor
    · rintro ⟨operation', hr'⟩
      dsimp only at hr'
      split at hr' <;> cases hr'
    · rintro ⟨operation', hr'⟩
      rw [hr] at hr'
      cases hr'
      exact absurd (of_decide_eq_true hs) hne
  · exact .refl pid w

/-- Another call launches a machine for its own Session. -/
theorem elsewhere_of_launch (h : w.Tracked) {q : ℕ} (hq : q ≠ pid) (hop : w.Operates q sessionId)
    (disposable : Bool) : Elsewhere pid w (w.launch sessionId disposable) := by
  refine { Elsewhere.refl pid w with machines := ?_, exited := ?_ }
  · rintro sessionId' (hop' | ⟨-, hnil⟩)
    · have hne : sessionId' ≠ sessionId := session_ne h hq hop hop'
      exact .inl (OrderedMap.get?_set_of_ne _ hne _)
    · exact absurd hnil (not_admitted_nil h hop)
  · intro vm hexited
    obtain ⟨machine, hmachine, he⟩ := (Option.any_eq_true _ _).mp hexited
    refine (Option.any_eq_true _ _).mpr ⟨machine, ?_, he⟩
    exact NativeRuntime.getElem?_launch.mpr (.inl hmachine)

/-- **The interference lemma.** -/
theorem elsewhere_of_step (h : w.Tracked) {q : ℕ} (hq : q ≠ pid) (hown : Owns q e w)
    (ha : handleNative q e x w = some (a, w')) : Elsewhere pid w w' := by
  cases e with
  | admitOperation key =>
    simp only [handleNative] at ha
    split at ha <;> cases ha
    · exact .refl pid w
    · next hopen =>
      exact { Elsewhere.refl pid w with
        admitted := fun _ h ↦ List.mem_cons_of_mem _ h
        closed := fun hclosed ↦ absurd hclosed.1 hopen }
  | enter key session =>
    simp only [handleNative] at ha
    split at ha <;> cases ha
    exact { Elsewhere.refl pid w with
      operations := fun _ _ h ↦ List.mem_append_left _ h }
  | leave key =>
    cases ha
    obtain ⟨session, hop, -⟩ := hown
    exact elsewhere_of_leave h hq hop
  | probeSession =>
    simp only [handleNative] at ha
    split at ha <;> cases ha
    refine { Elsewhere.refl pid w with operations := fun key session hmine ↦ ?_ }
    refine List.mem_map.mpr ⟨_, hmine, if_neg fun hpid ↦ hq hpid.1.symm⟩
  | reserve sessionId operation provenance facts available needed =>
    simp only [handleNative] at ha
    split at ha <;> cases ha
    · next hadmitted => exact elsewhere_of_reserve h hq hown (slot_of_admission hadmitted) operation
    · exact .refl pid w
  | releaseOperation sessionId =>
    cases ha
    exact elsewhere_of_release h hq hown
  | launch sessionId disposable =>
    simp only [handleNative] at ha
    split at ha <;> cases ha
    · exact elsewhere_of_launch h hq hown.1 disposable
    · exact .refl pid w
  | unregister sessionId vm =>
    cases ha
    -- The exit of the machine has taken it out of the register already.
    rw [unregister_of_exited h hown]
    exact .refl pid w
  | settleStop sessionId vm =>
    cases ha
    rw [settleStop_eq h hown]
    exact .refl pid w
  | setUnallocated sessionId absent =>
    cases ha
    exact { Elsewhere.refl pid w with }
  | beginClose =>
    cases ha
    exact { Elsewhere.refl pid w with
      machines := fun _ _ ↦ .inl rfl
      closing := fun _ ↦ rfl
      closed := fun hclosed ↦ ⟨rfl, hclosed.2⟩ }
  | die vm =>
    simp only [handleNative] at ha
    split at ha <;> cases ha
    refine { Elsewhere.refl pid w with exited := fun _ h ↦ hasExited_updateMachine ?_ h }
    exact fun _ h ↦ h
  | exitCallback vm =>
    simp only [handleNative] at ha
    split at ha
    · cases ha
    next machine _ =>
    split at ha <;> cases ha
    exact elsewhere_of_exitCallback machine
  | _ =>
    -- The other requests only ask.
    rw [handle_quiet ha trivial]
    exact .refl pid w

/-! ## The proof setting -/

def exclusiveSetting : Setting NativeRuntime MachineRequest MachineRequest.Answer NativeError Unit
    Call MachineChoice where
  service := service
  discipline := Apart
  inv := NativeRuntime.Tracked
  guar p e w w' := Owns p.1 e w ∧ ∃ x a, handleNative p.1 e x w = some (a, w')

/-- What a call knows while it operates on a Session: whether it holds the slot, and perhaps that
the Session has no machine. -/
structure During (pid : ℕ) (key sessionId : String) (holding cold : Bool) (w : NativeRuntime) :
    Prop where
  operates : ⟨pid, key, some sessionId⟩ ∈ w.operations
  pends : w.Pends sessionId ↔ holding = true
  machine : cold = true → w.machines.get? sessionId = none

/-- No operation is in progress, and none will begin. -/
def Closed (w : NativeRuntime) : Prop := w.closing ∧ w.admitted = []

section Rules

variable {p : ℕ × Call} {P : NativeRuntime → Prop} {β : Type} {holding cold : Bool}

theorem elsewhere_of_guar {q : ℕ × Call} (hq : q.1 ≠ p.1) (h : w.Tracked)
    (hg : exclusiveSetting.guar q e w w') : Elsewhere p.1 w w' := by
  obtain ⟨hown, x, a, ha⟩ := hg
  exact elsewhere_of_step h hq hown ha

theorem during_stable :
    exclusiveSetting.Stable p (During p.1 key sessionId holding cold) := by
  intro q e s t hq hs _ hg h
  have helse : Elsewhere p.1 s t := elsewhere_of_guar hq hs hg
  have hop : s.Operates p.1 sessionId := ⟨key, h.operates⟩
  refine ⟨helse.operations _ _ h.operates, (helse.pends _ hop).trans h.pends, fun hcold ↦ ?_⟩
  rcases helse.machines sessionId (.inl hop) with hsame | hnone
  · exact hsame.trans (h.machine hcold)
  · exact hnone

theorem closed_stable : exclusiveSetting.Stable p Closed :=
  fun _ _ _ _ hq hs _ hg h ↦ (elsewhere_of_guar hq hs hg).closed h

/-- While a call operates on a Session, or once the runtime is closed, the machine of the Session
may go but no other comes. -/
theorem was_stable (hP : exclusiveSetting.Stable p P)
    (hanchor : ∀ w, P w → w.Operates p.1 sessionId ∨ (w.closing ∧ w.admitted = [])) :
    exclusiveSetting.Stable p fun w ↦ P w ∧
      (w.machines.get? sessionId = some vm ∨ w.machines.get? sessionId = none) := by
  intro q e s t hq hs ht hg ⟨hp, hwas⟩
  refine ⟨hP hq hs ht hg hp, ?_⟩
  rcases (elsewhere_of_guar hq hs hg).machines sessionId (hanchor s hp) with hsame | hnone
  · rw [hsame]
    exact hwas
  · exact .inr hnone

theorem exited_stable : exclusiveSetting.Stable p fun w ↦ w.hasExited vm :=
  fun _ _ _ _ hq hs _ hg h ↦ (elsewhere_of_guar hq hs hg).exited _ h

/-- One request, from what the call owns and what the answer tells. -/
theorem meets_request {P' : e.Answer → NativeRuntime → Prop}
    {T : NativeError → NativeRuntime → Prop} (hP : exclusiveSetting.Stable p P)
    (hown : ∀ w, w.Tracked → P w → Owns p.1 e w)
    (hpost : ∀ w x a w', w.Tracked → P w → entersApart w e →
      handleNative p.1 e x w = some (a, w') → P' a w') :
    exclusiveSetting.Meets p P (Prog.perform e) P' T :=
  meets_perform hP fun w x a w' hw hp hx ha ↦ ⟨tracked_of_step hw (hown w hw hp) hx ha,
    ⟨hown w hw hp, x, a, ha⟩, hpost w x a w' hw hp hx ha⟩

theorem owns_of_quiet (he : Quiet e) : Owns pid e w := by
  cases e <;> trivial

theorem meets_quiet {T : NativeError → NativeRuntime → Prop} (he : Quiet e)
    (hP : exclusiveSetting.Stable p P) :
    exclusiveSetting.Meets p P (Prog.perform e) (fun _ ↦ P) T :=
  meets_request hP (fun _ _ _ ↦ owns_of_quiet he) fun w x a w' _ hp _ ha ↦ by
    rwa [handle_quiet ha he]

/-- A part that changes nothing keeps whatever the call rests on. -/
theorem meets_quietly {m : MachineProg β} (hm : m.Within Quiet)
    (hP : exclusiveSetting.Stable p P) :
    exclusiveSetting.Meets p P m (fun _ ↦ P) fun _ ↦ P := by
  induction m with
  | ret b => exact meets_ret fun _ _ h ↦ h
  | raise e => exact meets_raise fun _ _ h ↦ h
  | call e k ih => exact Meets.bind (meets_quiet hm.1 hP) fun a ↦ ih a (hm.2 a)

theorem within_ofExcept (r : Except NativeError β) :
    (Prog.ofExcept r : MachineProg β).Within Quiet := by
  cases r <;> trivial

theorem within_await (wait : NativeWait) : (await wait).Within Quiet :=
  (Prog.within_perform trivial).bind fun _ ↦ within_ofExcept _

theorem within_throwIfAborted (signal : Bool) : (throwIfAborted signal).Within Quiet := by
  cases signal with
  | false => trivial
  | true => exact within_await .signal

theorem within_imageBytes (provenance : NativeProvenance) :
    (imageBytes provenance).Within Quiet := by
  unfold imageBytes
  split
  · exact (Prog.within_perform trivial).bind fun r ↦ (within_ofExcept r).bind fun _ ↦ trivial
  · trivial

theorem within_connect (vm : ℕ) (signal : Bool) (attempts : ℕ) :
    (connect vm signal attempts).Within Quiet := by
  induction attempts with
  | zero => trivial
  | succ attempts ih =>
    refine (within_await _).catching fun _ ↦ ?_
    refine (within_throwIfAborted signal).bind fun _ ↦ ?_
    refine (Prog.within_perform trivial).bind fun alive ↦ ?_
    split
    · exact ih
    · trivial

theorem within_workerRunning (sessionId : String) : (workerRunning sessionId).Within Quiet := by
  refine (Prog.within_perform trivial).bind fun machine ↦ ?_
  split
  · trivial
  · refine (Prog.within_perform trivial).bind fun alive ↦ ?_
    split
    · trivial
    · refine (Prog.within_perform trivial).bind fun health ↦ ?_
      split
      · exact (Prog.within_perform trivial).bind fun _ ↦ trivial
      · trivial

theorem within_admitTurn (sessionId : String) :
    (LocalNativeRuntime.admitTurn sessionId).Within Quiet := by
  refine (Prog.within_perform trivial).bind fun r ↦ (within_ofExcept r).bind fun provenance ↦ ?_
  refine (Prog.within_perform trivial).bind fun r ↦ (within_ofExcept r).bind fun facts ↦ ?_
  refine (Prog.within_perform trivial).bind fun reservation ↦ ?_
  split
  · refine (within_workerRunning sessionId).bind fun running ↦ ?_
    split <;> trivial
  · trivial

theorem within_stopProbeWorker (sessionId : String) :
    (stopProbeWorker sessionId).Within Quiet := by
  have hexit (vm : ℕ) : (confirmedExit vm).Within Quiet :=
    (Prog.within_perform trivial).bind fun _ ↦ within_ofExcept _
  refine (Prog.within_perform trivial).bind fun machine ↦ ?_
  split
  · trivial
  · next vm =>
    refine Prog.Within.bind ?_ fun _ ↦ hexit vm
    refine Prog.Within.catching ((Prog.within_perform trivial).bind fun _ ↦ within_ofExcept _)
      fun error ↦ ?_
    refine (Prog.within_perform trivial).bind fun _ ↦ ?_
    exact (hexit vm).bind fun _ ↦ trivial

/-! ## The parts of a method -/

/-- A reservation that is admitted takes the slot; one that is not leaves everything as it is. -/
theorem meets_reserve (operation : ReservedOperation) (signal : Bool) :
    exclusiveSetting.Meets p (During p.1 key sessionId false cold)
      (reserve sessionId operation signal)
      (fun _ ↦ During p.1 key sessionId true cold)
      fun _ ↦ During p.1 key sessionId false cold := by
  refine Meets.bind (meets_quiet trivial during_stable) fun r ↦ ?_
  refine Meets.bind (meets_quietly (within_ofExcept r) during_stable) fun provenance ↦ ?_
  refine Meets.bind (meets_quiet trivial during_stable) fun r ↦ ?_
  refine Meets.bind (meets_quietly (within_ofExcept r) during_stable) fun facts ↦ ?_
  refine Meets.bind (meets_quietly (within_throwIfAborted signal) during_stable) fun _ ↦ ?_
  refine Meets.bind (meets_quietly (within_imageBytes provenance) during_stable) fun bytes ↦ ?_
  refine Meets.bind (M := fun r w ↦
      During p.1 key sessionId (match r with | .ok _ => true | .error _ => false) cold w)
    (meets_request during_stable (fun _ _ h ↦ ⟨key, h.operates⟩) fun w x a w' _ hd _ ha ↦ ?_)
    fun r ↦ ?_
  · simp only [handleNative] at ha
    split at ha <;> cases ha
    · exact ⟨hd.operates, ⟨fun _ ↦ rfl, fun _ ↦ ⟨operation, rfl⟩⟩, hd.machine⟩
    · exact hd
  · cases r with
    | ok resources => exact meets_ret fun _ _ h ↦ h
    | error error => exact meets_raise fun _ _ h ↦ h

/-- An operation that holds the slot launches a machine, if its Session has none. -/
theorem meets_launch (disposable : Bool) {T : NativeError → NativeRuntime → Prop} :
    exclusiveSetting.Meets p (During p.1 key sessionId true true)
      (Prog.perform (MachineRequest.launch sessionId disposable))
      (fun _ ↦ During p.1 key sessionId true false) T := by
  refine meets_request during_stable
    (fun _ _ h ↦ ⟨⟨key, h.operates⟩, h.pends.mpr rfl, h.machine rfl⟩) fun w x a w' _ hd _ ha ↦ ?_
  simp only [handleNative] at ha
  split at ha <;> cases ha
  · exact ⟨hd.operates, hd.pends, nofun⟩
  · exact ⟨hd.operates, hd.pends, nofun⟩

/-- Waiting for the end of a machine. -/
theorem meets_exited {T : NativeError → NativeRuntime → Prop}
    (hP : exclusiveSetting.Stable p P) :
    exclusiveSetting.Meets p P (Prog.perform (MachineRequest.exited vm))
      (fun _ w ↦ P w ∧ w.hasExited vm) T := by
  refine meets_request hP (fun _ _ _ ↦ trivial) fun w x a w' _ hp _ ha ↦ ?_
  simp only [handleNative] at ha
  split at ha <;> cases ha
  next hexited => exact ⟨hp, hexited⟩

theorem meets_confirmedExit (hP : exclusiveSetting.Stable p P) :
    exclusiveSetting.Meets p P (confirmedExit vm) (fun _ w ↦ P w ∧ w.hasExited vm)
      fun _ ↦ P := by
  refine Meets.bind (M := fun r w ↦ P w ∧ (r = .ok () → w.hasExited vm))
    (meets_request hP (fun _ _ _ ↦ trivial) fun w x a w' _ hp _ ha ↦ ?_) fun r ↦ ?_
  · simp only [handleNative] at ha
    split at ha <;> cases ha
    next hanswer =>
    refine ⟨hp, fun hok ↦ ?_⟩
    cases hfault : x.fault with
    | none => simpa [hfault] using hanswer
    | some error => simp [MachineChoice.attempt, hfault] at hok
  · cases r with
    | ok _ => exact meets_ret fun _ _ h ↦ ⟨h.1, h.2 rfl⟩
    | error error => exact meets_raise fun _ _ h ↦ h.1

theorem meets_boot (mode : String) (resources : NativeResources) (signal : Bool) :
    exclusiveSetting.Meets p (During p.1 key sessionId true true)
      (boot sessionId mode resources signal)
      (fun _ ↦ During p.1 key sessionId true false)
      fun _ ↦ During p.1 key sessionId true false := by
  have hforget (w : NativeRuntime) (h : During p.1 key sessionId true true w) :
      During p.1 key sessionId true false w := ⟨h.operates, h.pends, nofun⟩
  refine Meets.bind (M := fun _ ↦ During p.1 key sessionId true true)
    ((meets_quietly (within_await _) during_stable).conseq (fun _ _ h ↦ h) (fun _ _ _ h ↦ h)
      fun _ w _ h ↦ hforget w h) fun _ ↦ ?_
  refine Meets.bind (M := fun _ ↦ During p.1 key sessionId true true)
    ((meets_quietly (within_throwIfAborted signal) during_stable).conseq (fun _ _ h ↦ h)
      (fun _ _ _ h ↦ h) fun _ w _ h ↦ hforget w h) fun _ ↦ ?_
  refine Meets.bind (meets_launch signal) fun r ↦ ?_
  refine Meets.bind (meets_quietly (within_ofExcept r) during_stable) fun vm ↦ ?_
  refine Meets.catching (U := fun _ ↦ During p.1 key sessionId true false) ?_ fun error ↦ ?_
  · refine meets_quietly ?_ during_stable
    refine (within_await _).bind fun _ ↦ ?_
    exact (within_connect vm signal 150).bind fun _ ↦ trivial
  · refine Meets.bind (meets_quiet trivial during_stable) fun _ ↦ ?_
    refine Meets.bind (M := fun _ w ↦ During p.1 key sessionId true false w ∧ w.hasExited vm) ?_
      fun _ ↦ ?_
    · cases signal with
      | false => exact meets_exited during_stable
      | true => exact meets_confirmedExit during_stable
    · refine Meets.bind (M := fun _ ↦ During p.1 key sessionId true false)
        (meets_request (during_stable.and exited_stable) (fun _ _ h ↦ h.2)
          fun w x a w' hw hd _ ha ↦ ?_) fun _ ↦ meets_raise fun _ _ h ↦ h
      cases ha
      rw [unregister_of_exited hw hd.2]
      exact hd.1

/-- Stopping a machine leaves its Session without one, if it succeeds. -/
theorem meets_stopWorker (hP : exclusiveSetting.Stable p P)
    (hanchor : ∀ w, P w → w.Operates p.1 sessionId ∨ Closed w) :
    exclusiveSetting.Meets p P (stopWorker sessionId)
      (fun _ w ↦ P w ∧ w.machines.get? sessionId = none) fun _ ↦ P := by
  refine Meets.bind (M := fun machine w ↦ P w ∧ w.machines.get? sessionId = machine)
    (meets_request hP (fun _ _ _ ↦ trivial) fun w x a w' _ hp _ ha ↦ ?_) fun machine ↦ ?_
  · cases ha
    exact ⟨hp, rfl⟩
  cases machine with
  | none => exact meets_ret fun _ _ h ↦ h
  | some vm =>
    have hwas : exclusiveSetting.Stable p fun w ↦ P w ∧
        (w.machines.get? sessionId = some vm ∨ w.machines.get? sessionId = none) :=
      was_stable hP hanchor
    have hsettle {R : NativeRuntime → Prop} {T : NativeError → NativeRuntime → Prop}
        (hR : exclusiveSetting.Stable p R)
        (hown : ∀ w, R w → Owns p.1 (.settleStop sessionId vm) w) :
        exclusiveSetting.Meets p R (Prog.perform (MachineRequest.settleStop sessionId vm))
          (fun _ ↦ R) T := by
      refine meets_request hR (fun w _ h ↦ hown w h) fun w x a w' hw hr _ ha ↦ ?_
      cases ha
      rw [settleStop_eq hw (hown w hr)]
      exact hr
    refine (Meets.ensuring (P := fun w ↦ P w ∧ (w.machines.get? sessionId = some vm ∨
        w.machines.get? sessionId = none)) (M := fun _ w ↦ (P w ∧
          (w.machines.get? sessionId = some vm ∨ w.machines.get? sessionId = none)) ∧
          w.hasExited vm) (U := fun _ w ↦ P w ∧ (w.machines.get? sessionId = some vm ∨
        w.machines.get? sessionId = none)) ?_ (fun _ ↦ ?_) fun error ↦ ?_).pre
          fun _ _ h ↦ ⟨h.1, .inl h.2⟩
    · refine Meets.bind (meets_quiet trivial hwas) fun r ↦ ?_
      exact Meets.bind (meets_quietly (within_ofExcept r) hwas) fun _ ↦ meets_exited hwas
    · refine (hsettle (hwas.and exited_stable) fun _ h ↦ h.1.2).conseq (fun _ _ h ↦ h)
        (fun _ w hw h ↦ ⟨h.1.1, ?_⟩) fun _ _ _ h ↦ h
      exact h.1.2.resolve_left (hw.unregistered_of_exited h.2)
    · exact (hsettle hwas fun _ h ↦ h.2).conseq (fun _ _ h ↦ h) (fun _ _ _ h ↦ h.1)
        fun _ _ _ h ↦ h

theorem during_anchor (w : NativeRuntime) (h : During pid key sessionId holding cold w) :
    w.Operates pid sessionId ∨ Closed w :=
  .inl ⟨key, h.operates⟩

/-- The machine of an operation's own Session is stopped. -/
theorem meets_stopOwn :
    exclusiveSetting.Meets p (During p.1 key sessionId holding cold) (stopWorker sessionId)
      (fun _ ↦ During p.1 key sessionId holding true)
      fun _ ↦ During p.1 key sessionId holding cold :=
  (meets_stopWorker during_stable during_anchor).conseq (fun _ _ h ↦ h)
    (fun _ _ _ h ↦ ⟨h.1.operates, h.1.pends, fun _ ↦ h.2⟩) fun _ _ _ h ↦ h

/-- At the end of an operation the slot is its own no more. -/
theorem meets_releaseOperation {T : NativeError → NativeRuntime → Prop} :
    exclusiveSetting.Meets p (During p.1 key sessionId holding cold)
      (Prog.perform (MachineRequest.releaseOperation sessionId))
      (fun _ ↦ During p.1 key sessionId false false) T := by
  refine meets_request during_stable (fun _ _ h ↦ ⟨key, h.operates⟩) fun w x a w' _ hd _ ha ↦ ?_
  cases ha
  unfold NativeRuntime.releaseOperation
  split
  · refine ⟨hd.operates, ⟨fun hpends ↦ ?_, fun h ↦ by contradiction⟩, fun h ↦ by contradiction⟩
    obtain ⟨operation, hr⟩ := hpends
    dsimp only at hr
    split at hr <;> cases hr
  · next hother =>
    refine ⟨hd.operates, ⟨fun hpends ↦ absurd ?_ hother, fun h ↦ by contradiction⟩,
      fun h ↦ by contradiction⟩
    obtain ⟨operation, hr⟩ := hpends
    rw [hr]
    exact decide_eq_true rfl

theorem meets_setUnallocated (absent : Bool) {T : NativeError → NativeRuntime → Prop} :
    exclusiveSetting.Meets p (During p.1 key sessionId holding cold)
      (Prog.perform (MachineRequest.setUnallocated sessionId absent))
      (fun _ ↦ During p.1 key sessionId holding cold) T := by
  refine meets_request during_stable (fun _ _ _ ↦ trivial) fun w x a w' _ hd _ ha ↦ ?_
  cases ha
  exact ⟨hd.operates, hd.pends, hd.machine⟩

/-! ## The methods

Every method is a sequence of the parts above, with an operation around it that ends in any case.
What it owes to the others is that the slot is given up by then. -/

/-- What an operation has to leave behind: it does not hold the slot any more. -/
def Ended (pid : ℕ) (key : String) (w : NativeRuntime) : Prop :=
  ∃ session, ⟨pid, key, session⟩ ∈ w.operations ∧
    ∀ sessionId, session = some sessionId → ¬ w.Pends sessionId

theorem During.ended (h : During pid key sessionId false cold w) : Ended pid key w := by
  refine ⟨some sessionId, h.operates, fun sessionId' hs hpends ↦ ?_⟩
  cases hs
  have hfalse : false = true := h.pends.mp hpends
  cases hfalse

theorem During.forget (h : During pid key sessionId holding cold w) :
    During pid key sessionId holding false w :=
  ⟨h.operates, h.pends, nofun⟩

/-- A part that holds the slot gives it back at its end. -/
theorem meets_holding {m : MachineProg Unit} {c : MachineProg Unit} {cold' : Bool}
    (hm : exclusiveSetting.Meets p (During p.1 key sessionId true cold) m
      (fun _ ↦ During p.1 key sessionId true false) fun _ ↦ During p.1 key sessionId true false)
    (hc : exclusiveSetting.Meets p (During p.1 key sessionId true false) c
      (fun _ ↦ During p.1 key sessionId false cold')
      fun _ ↦ During p.1 key sessionId false cold') :
    exclusiveSetting.Meets p (During p.1 key sessionId true cold) (m.ensuring c)
      (fun _ ↦ Ended p.1 key) fun _ ↦ Ended p.1 key :=
  (Meets.ensuring hm (fun _ ↦ hc) fun _ ↦ hc).conseq (fun _ _ h ↦ h) (fun _ _ _ h ↦ h.ended)
    fun _ _ _ h ↦ h.ended

/-- A part that changes nothing, on the way of one that knows less at its end. -/
theorem meets_step {γ : Type} {m : MachineProg γ} {f : γ → MachineProg β} {cold' : Bool}
    {Q : β → NativeRuntime → Prop} (hm : m.Within Quiet)
    (hf : ∀ c, exclusiveSetting.Meets p (During p.1 key sessionId holding cold) (f c) Q
      fun _ ↦ During p.1 key sessionId holding cold')
    (hcold : cold' = true → cold = true) :
    exclusiveSetting.Meets p (During p.1 key sessionId holding cold) (m >>= f) Q
      fun _ ↦ During p.1 key sessionId holding cold' :=
  Meets.bind ((meets_quietly hm during_stable).conseq (fun _ _ h ↦ h) (fun _ _ _ h ↦ h)
    fun _ _ _ h ↦ ⟨h.operates, h.pends, fun hc ↦ h.machine (hcold hc)⟩) hf

theorem meets_reserveWorker (request : StartRequest) (hs : request.sessionId = sessionId) :
    exclusiveSetting.Meets p (During p.1 key sessionId false false) (reserveWorker request)
      (fun _ ↦ During p.1 key sessionId true false)
      fun _ ↦ During p.1 key sessionId false false := by
  subst hs
  refine Meets.catching (meets_reserve .worker false) fun error ↦ ?_
  refine Meets.bind (meets_quiet trivial during_stable) fun machine ↦ ?_
  split
  · refine Meets.bind (meets_quiet trivial during_stable) fun r ↦ ?_
    refine Meets.bind (meets_quietly (within_ofExcept r) during_stable) fun absent ↦ ?_
    split
    · exact Meets.bind (meets_setUnallocated true) fun _ ↦ meets_raise fun _ _ h ↦ h
    · exact meets_raise fun _ _ h ↦ h
  · exact meets_raise fun _ _ h ↦ h

theorem meets_startWorker (request : StartRequest) :
    exclusiveSetting.Meets p (During p.1 key request.sessionId false false) (startWorker request)
      (fun _ ↦ Ended p.1 key) fun _ ↦ Ended p.1 key := by
  unfold startWorker
  split
  · exact meets_raise fun _ _ h ↦ h.ended
  refine Meets.bind (M := fun _ ↦ During p.1 key request.sessionId false false)
    (meets_setUnallocated false) fun _ ↦ ?_
  refine Meets.bind ((meets_reserveWorker request rfl).conseq (fun _ _ h ↦ h) (fun _ _ _ h ↦ h)
    fun _ _ _ h ↦ h.ended) fun resources ↦ ?_
  refine meets_holding ?_ ((meets_releaseOperation).conseq (fun _ _ h ↦ h) (fun _ _ _ h ↦ h)
    fun _ _ _ h ↦ h)
  refine meets_step (within_await _) (fun _ ↦ ?_) id
  refine meets_step (within_await _) (fun _ ↦ ?_) id
  refine Meets.bind meets_stopOwn fun _ ↦ ?_
  refine Meets.bind (meets_boot _ resources false) fun vm ↦ ?_
  refine Meets.catching (meets_quietly ?_ during_stable) fun error ↦ ?_
  · refine (within_await _).bind fun _ ↦ ?_
    refine (Prog.within_perform trivial).bind fun alive ↦ ?_
    split <;> trivial
  · exact Meets.bind meets_stopOwn fun _ ↦ meets_raise fun _ _ h ↦ h.forget

theorem meets_snapshotWorker :
    exclusiveSetting.Meets p (During p.1 key sessionId false false) (snapshotWorker sessionId)
      (fun _ ↦ Ended p.1 key) fun _ ↦ Ended p.1 key := by
  unfold snapshotWorker
  split
  · exact meets_raise fun _ _ h ↦ h.ended
  refine Meets.bind ((meets_reserve .snapshot false).conseq (fun _ _ h ↦ h) (fun _ _ _ h ↦ h)
    fun _ _ _ h ↦ h.ended) fun resources ↦ ?_
  refine meets_holding ?_ meets_releaseOperation
  refine meets_step (within_await _) (fun _ ↦ ?_) id
  refine Meets.bind meets_stopOwn fun _ ↦ ?_
  refine Meets.bind (meets_boot _ resources false) fun vm ↦ ?_
  have hstop : exclusiveSetting.Meets p (During p.1 key sessionId true false)
      (stopWorker sessionId) (fun _ ↦ During p.1 key sessionId true false)
      fun _ ↦ During p.1 key sessionId true false :=
    meets_stopOwn.conseq (fun _ _ h ↦ h) (fun _ _ _ h ↦ h.forget) fun _ _ _ h ↦ h
  refine Meets.ensuring (meets_quietly ?_ during_stable) (fun _ ↦ hstop) fun _ ↦ hstop
  exact (within_await _).bind fun _ ↦ within_await _

/-- The Session of a probe is new, so it has no machine. -/
theorem meets_releaseProbe {cold : Bool} :
    exclusiveSetting.Meets p (During p.1 key sessionId true cold)
      (do
        Prog.perform (MachineRequest.releaseOperation sessionId)
        match ← Prog.perform (MachineRequest.machine sessionId) with
        | none => await (.removeWorkspace sessionId)
        | some _ => pure ())
      (fun _ ↦ During p.1 key sessionId false false)
      fun _ ↦ During p.1 key sessionId false false := by
  refine Meets.bind meets_releaseOperation fun _ ↦ ?_
  refine Meets.bind (meets_quiet trivial during_stable) fun machine ↦ ?_
  cases machine with
  | none => exact meets_quietly (within_await _) during_stable
  | some vm => exact meets_ret fun _ _ h ↦ h

theorem meets_probe :
    exclusiveSetting.Meets p (fun w ↦ ⟨p.1, key, none⟩ ∈ w.operations) probe
      (fun _ ↦ Ended p.1 key) fun _ ↦ Ended p.1 key := by
  have hstable : exclusiveSetting.Stable p
      fun w ↦ (⟨p.1, key, none⟩ : MachineOperation) ∈ w.operations :=
    fun _ _ _ _ hq hs _ hg h ↦ (elsewhere_of_guar hq hs hg).operations _ _ h
  refine Meets.bind (M := fun sessionId ↦ During p.1 key sessionId false true)
    (meets_request hstable (fun _ _ _ ↦ trivial) fun w x a w' hw hop _ ha ↦ ?_)
    fun sessionId ↦ ?_
  · simp only [handleNative] at ha
    split at ha <;> cases ha
    next hnew =>
    refine ⟨?_, ⟨fun hpends ↦ ?_, fun h ↦ by contradiction⟩, fun _ ↦ ?_⟩
    · exact List.mem_map.mpr ⟨_, hop, if_pos ⟨rfl, rfl⟩⟩
    · obtain ⟨q, hq⟩ := hw.pending _ hpends
      exact absurd hq (NativeRuntime.not_operates_of_isNew hnew q)
    · rw [Option.eq_none_iff_forall_ne_some]
      intro vm hvm
      obtain ⟨machine, hmachine, hs, -⟩ := hw.registered _ vm hvm
      simp only [NativeRuntime.isNew, Bool.and_eq_true, List.all_eq_true] at hnew
      have hne := hnew.2 machine (List.mem_of_getElem? hmachine)
      rw [hs] at hne
      simp at hne
  refine Meets.bind ((meets_reserve .probe false).conseq (fun _ _ h ↦ h) (fun _ _ _ h ↦ h)
    fun _ _ _ h ↦ h.ended) fun resources ↦ ?_
  refine meets_holding ?_ (Meets.ensuring meets_stopOwn (fun _ ↦ meets_releaseProbe) fun _ ↦
    meets_releaseProbe)
  refine meets_step (within_await _) (fun _ ↦ ?_) (fun h ↦ by contradiction)
  exact Meets.bind (meets_boot _ resources false) fun _ ↦ meets_ret fun _ _ h ↦ h

/-- A disposable worker cleans up whether or not it has reserved anything. -/
theorem meets_disposableWorker (input : DisposableRequest) :
    exclusiveSetting.Meets p (During p.1 key input.sessionId false true) (disposableWorker input)
      (fun _ ↦ Ended p.1 key) fun _ ↦ Ended p.1 key := by
  let Either (w : NativeRuntime) : Prop :=
    ∃ holding, During p.1 key input.sessionId holding false w
  have hclean : exclusiveSetting.Meets p Either ((stopProbeWorker input.sessionId).ensuring
      (Prog.perform (MachineRequest.releaseOperation input.sessionId)))
      (fun _ ↦ Ended p.1 key) fun _ ↦ Ended p.1 key := by
    rintro w hw ⟨holding, h⟩
    refine ((Meets.ensuring (meets_quietly (within_stopProbeWorker _) during_stable)
      (fun _ ↦ meets_releaseOperation) fun _ ↦ meets_releaseOperation).conseq (fun _ _ h ↦ h)
        (fun _ _ _ h ↦ h.ended) fun _ _ _ h ↦ h.ended) w hw h
  have hunreserved {γ : Type} {m : MachineProg γ} (hm : m.Within Quiet) :
      exclusiveSetting.Meets p (During p.1 key input.sessionId false true) m
        (fun _ ↦ During p.1 key input.sessionId false true) fun _ ↦ Either :=
    (meets_quietly hm during_stable).conseq (fun _ _ h ↦ h) (fun _ _ _ h ↦ h)
      fun _ _ _ h ↦ ⟨false, h.forget⟩
  have hreserved {γ : Type} {m : MachineProg γ} {cold : Bool} (hm : m.Within Quiet) :
      exclusiveSetting.Meets p (During p.1 key input.sessionId true cold) m
        (fun _ ↦ During p.1 key input.sessionId true cold) fun _ ↦ Either :=
    (meets_quietly hm during_stable).conseq (fun _ _ h ↦ h) (fun _ _ _ h ↦ h)
      fun _ _ _ h ↦ ⟨true, h.forget⟩
  refine Meets.ensuring (M := fun _ ↦ Either) (U := fun _ ↦ Either) ?_ (fun _ ↦ hclean)
    fun _ ↦ hclean
  refine Meets.bind (hunreserved (within_await _)) fun _ ↦ ?_
  refine Meets.bind (hunreserved (within_await _)) fun _ ↦ ?_
  split
  · exact meets_raise fun _ _ h ↦ ⟨false, h.forget⟩
  refine Meets.bind ((meets_reserve .probe true).conseq (fun _ _ h ↦ h) (fun _ _ _ h ↦ h)
    fun _ _ _ h ↦ ⟨false, h.forget⟩) fun resources ↦ ?_
  refine Meets.bind (hreserved (within_await _)) fun _ ↦ ?_
  refine Meets.bind (hreserved (within_await _)) fun _ ↦ ?_
  refine Meets.bind (hreserved (within_await _)) fun _ ↦ ?_
  refine Meets.bind ((meets_boot "fresh" resources true).conseq (fun _ _ h ↦ h) (fun _ _ _ h ↦ h)
    fun _ _ _ h ↦ ⟨true, h⟩) fun vm ↦ ?_
  refine (hreserved ?_).conseq (fun _ _ h ↦ h) (fun _ _ _ h ↦ ⟨true, h⟩) fun _ _ _ h ↦ h
  refine (within_await _).bind fun _ ↦ ?_
  refine (Prog.within_perform trivial).bind fun registered ↦ ?_
  split
  · trivial
  refine (within_await _).bind fun _ ↦ ?_
  refine (Prog.within_perform trivial).bind fun healthy ↦ ?_
  split
  · trivial
  · exact within_await _

theorem meets_stopSession :
    exclusiveSetting.Meets p (During p.1 key sessionId false false) (stopSession sessionId)
      (fun _ ↦ Ended p.1 key) fun _ ↦ Ended p.1 key := by
  refine Meets.conseq (Q := fun _ ↦ During p.1 key sessionId false false)
    (T := fun _ ↦ During p.1 key sessionId false false) ?_ (fun _ _ h ↦ h)
    (fun _ _ _ h ↦ h.ended) fun _ _ _ h ↦ h.ended
  refine Meets.bind (meets_quiet trivial during_stable) fun machine ↦ ?_
  cases machine with
  | some vm =>
    exact meets_stopOwn.conseq (fun _ _ h ↦ h) (fun _ _ _ h ↦ h.forget) fun _ _ _ h ↦ h
  | none =>
    refine Meets.bind (meets_quiet trivial during_stable) fun unallocated ↦ ?_
    have habsent : (stillAbsent sessionId unallocated).Within Quiet := by
      cases unallocated with
      | true => exact (Prog.within_perform trivial).bind fun _ ↦ within_ofExcept _
      | false => trivial
    refine Meets.bind (meets_quietly habsent during_stable) fun absent ↦ ?_
    split
    · exact meets_ret fun _ _ h ↦ h
    refine Meets.bind (meets_setUnallocated false) fun _ ↦ meets_quietly ?_ during_stable
    refine (Prog.within_perform trivial).bind fun r ↦ (within_ofExcept r).bind fun provenance ↦ ?_
    split
    · trivial
    · refine (Prog.within_perform trivial).bind fun r ↦ (within_ofExcept r).bind fun _ ↦ ?_
      exact (within_await _).bind fun _ ↦ within_await _

/-- An operation takes its turn, and leaves when it is over. -/
theorem meets_run {session : Option String} {operation : MachineProg Unit}
    {R : NativeRuntime → Prop}
    (hentered : ∀ w, w.Tracked → entersApart w (.enter key session) → R { w with
      operations := w.operations ++ [⟨p.1, key, session⟩] })
    (hoperation : exclusiveSetting.Meets p R operation (fun _ ↦ Ended p.1 key)
      fun _ ↦ Ended p.1 key) :
    exclusiveSetting.Meets p (fun _ ↦ True) (run key session operation) (fun _ _ ↦ True)
      fun _ _ ↦ True := by
  have hadmitted : exclusiveSetting.Stable p fun w ↦ (p.1, key) ∈ w.admitted :=
    fun _ _ _ _ hq hs _ hg h ↦ (elsewhere_of_guar hq hs hg).admitted _ h
  have hended : exclusiveSetting.Stable p (Ended p.1 key) := by
    rintro q e s t hq hs _ hg ⟨session, hop, hpends⟩
    have helse : Elsewhere p.1 s t := elsewhere_of_guar hq hs hg
    refine ⟨session, helse.operations _ _ hop, fun sessionId hsession hp ↦ ?_⟩
    refine hpends sessionId hsession ((helse.pends sessionId ⟨key, ?_⟩).mp hp)
    exact hsession ▸ hop
  refine Meets.bind (M := fun (r : Except NativeError Unit) w ↦ r = .ok () →
    (p.1, key) ∈ w.admitted)
    (meets_request stable_true (fun _ _ _ ↦ trivial) fun w x a w' _ _ _ ha ↦ ?_) fun r ↦ ?_
  · simp only [handleNative] at ha
    split at ha <;> cases ha
    · exact nofun
    · exact fun _ ↦ List.mem_cons_self
  cases r with
  | error error => exact meets_raise fun _ _ _ ↦ trivial
  | ok _ =>
    refine Meets.bind (M := fun _ w ↦ (p.1, key) ∈ w.admitted) (meets_ret fun _ _ h ↦ h rfl)
      fun _ ↦ ?_
    refine Meets.bind (M := fun _ ↦ R) (meets_request (e := .enter key session) hadmitted
      (fun _ _ h ↦ h) fun w x a w' hw _ hx ha ↦ ?_) fun _ ↦ ?_
    · simp only [handleNative] at ha
      split at ha <;> cases ha
      exact hentered w hw hx
    · have hleave {T : NativeError → NativeRuntime → Prop} :
          exclusiveSetting.Meets p (Ended p.1 key) (Prog.perform (MachineRequest.leave key))
            (fun _ _ ↦ True) T :=
        meets_request hended (fun _ _ h ↦ h) fun _ _ _ _ _ _ _ _ ↦ trivial
      exact Meets.ensuring hoperation (fun _ ↦ hleave) fun _ ↦ hleave

/-- An operation begins on a Session whose slot no operation holds. -/
theorem during_entered (hw : w.Tracked) (hx : entersApart w (.enter key (some sessionId)))
    (hcold : cold = true → key = "native-release-probe") :
    During pid key sessionId false cold { w with
      operations := w.operations ++ [⟨pid, key, some sessionId⟩] } := by
  simp only [entersApart, Bool.and_eq_true, List.all_eq_true] at hx
  refine ⟨List.mem_append_right _ List.mem_cons_self, ⟨fun hpends ↦ ?_, fun h ↦ by contradiction⟩,
    fun hc ↦ ?_⟩
  · obtain ⟨q, key', hop⟩ := hw.pending sessionId hpends
    simpa using hx.1 _ hop
  · simpa [hcold hc] using hx.2

/-- An operation that goes under the name of its Session. -/
theorem meets_turn {operation : MachineProg Unit}
    (hoperation : exclusiveSetting.Meets p (During p.1 sessionId sessionId false false) operation
      (fun _ ↦ Ended p.1 sessionId) fun _ ↦ Ended p.1 sessionId) :
    exclusiveSetting.Meets p (fun _ ↦ True) (run sessionId (some sessionId) operation)
      (fun _ _ ↦ True) fun _ _ ↦ True :=
  meets_run (R := During p.1 sessionId sessionId false false)
    (fun _ hw hx ↦ during_entered hw hx fun h ↦ nomatch h) hoperation

theorem meets_stopAll (machines : List (String × ℕ × Bool)) (failed : Bool) :
    exclusiveSetting.Meets p Closed (stopAll machines failed) (fun _ ↦ Closed) fun _ ↦ Closed := by
  induction machines generalizing failed with
  | nil =>
    unfold stopAll
    split
    · exact meets_raise fun _ _ h ↦ h
    · exact meets_ret fun _ _ h ↦ h
  | cons entry machines ih =>
    obtain ⟨sessionId, vm, disposable⟩ := entry
    refine Meets.bind (M := fun _ ↦ Closed) (Meets.catching (U := fun _ ↦ Closed) ?_
      fun _ ↦ meets_ret fun _ _ h ↦ h) fun failure ↦ ih _
    cases disposable with
    | true =>
      exact meets_quietly ((within_stopProbeWorker sessionId).bind fun _ ↦ trivial) closed_stable
    | false =>
      refine Meets.bind (M := fun _ ↦ Closed) ?_ fun _ ↦ meets_ret fun _ _ h ↦ h
      exact (meets_stopWorker closed_stable fun _ h ↦ .inr h).conseq (fun _ _ h ↦ h)
        (fun _ _ _ h ↦ h.1) fun _ _ _ h ↦ h

theorem meets_close :
    exclusiveSetting.Meets p (fun _ ↦ True) LocalNativeRuntime.close (fun _ _ ↦ True)
      fun _ _ ↦ True := by
  have hclosing : exclusiveSetting.Stable p fun w ↦ w.closing = true :=
    fun _ _ _ _ hq hs _ hg h ↦ (elsewhere_of_guar hq hs hg).closing h
  refine Meets.bind (M := fun _ w ↦ w.closing = true) (meets_request stable_true
    (fun _ _ _ ↦ trivial) fun w x a w' _ _ _ ha ↦ ?_) fun first ↦ ?_
  · cases ha
    rfl
  split
  · refine Meets.bind (M := fun _ ↦ Closed) (meets_request hclosing (fun _ _ _ ↦ trivial)
      fun w x a w' _ hc _ ha ↦ ?_) fun _ ↦ ?_
    · simp only [handleNative] at ha
      split at ha <;> cases ha
      next hnil => exact ⟨hc, hnil⟩
    · refine Meets.bind (meets_quiet trivial closed_stable) fun machines ↦ ?_
      exact (meets_stopAll machines false).conseq (fun _ _ h ↦ h) (fun _ _ _ _ ↦ trivial)
        fun _ _ _ _ ↦ trivial
  · exact meets_ret fun _ _ _ ↦ trivial

theorem meets_machineExits :
    exclusiveSetting.Meets p (fun _ ↦ True) (body (.machineExits vm)) (fun _ _ ↦ True)
      fun _ _ ↦ True := by
  refine Meets.bind (M := fun _ _ ↦ True) (meets_request stable_true (fun _ _ _ ↦ trivial)
    fun _ _ _ _ _ _ _ _ ↦ trivial) fun _ ↦ ?_
  exact meets_request stable_true (fun _ _ _ ↦ trivial) fun _ _ _ _ _ _ _ _ ↦ trivial

end Rules

theorem exclusive_verified :
    exclusiveSetting.Verified .fresh (fun _ _ _ ↦ True) fun _ _ _ ↦ True where
  init := NativeRuntime.tracked_fresh
  body p := by
    obtain ⟨pid, call⟩ := p
    cases call with
    | setup =>
      exact meets_run (R := fun w ↦ ⟨pid, "native-readiness", none⟩ ∈ w.operations)
        (fun _ _ _ ↦ List.mem_append_right _ List.mem_cons_self) meets_probe
    | withDisposableWorker input =>
      exact meets_run (fun _ hw hx ↦ during_entered hw hx fun _ ↦ rfl)
        (meets_disposableWorker input)
    | start request => exact meets_turn (meets_startWorker request)
    | snapshot sessionId => exact meets_turn meets_snapshotWorker
    | admitTurn sessionId =>
      refine meets_turn ?_
      exact (meets_quietly (within_admitTurn sessionId) during_stable).conseq (fun _ _ h ↦ h)
        (fun _ _ _ h ↦ h.ended) fun _ _ _ h ↦ h.ended
    | running sessionId =>
      have hwithin : (do let _ ← workerRunning sessionId : MachineProg Unit).Within Quiet :=
        (within_workerRunning sessionId).bind fun _ ↦ trivial
      refine meets_turn ?_
      exact (meets_quietly hwithin during_stable).conseq (fun _ _ h ↦ h)
        (fun _ _ _ h ↦ h.ended) fun _ _ _ h ↦ h.ended
    | stop sessionId => exact meets_turn meets_stopSession
    | close => exact meets_close
    | machineExits vm => exact meets_machineExits
  post_stable _ _ := stable_true
  fail_stable _ _ := stable_true

end LocalNativeRuntime

/-! ## Runs

`slot_exclusive` reads what is promised off the relation, and `reservation_of_step` says the one
thing that is about steps and not about states. -/

/-- What is promised of the slot. -/
structure NativeRuntime.Exclusive (w : NativeRuntime) : Prop where
  /-- At most one machine is alive. -/
  one : ∀ vm vm', w.isAlive vm → w.isAlive vm' → vm = vm'
  /-- The reservation names the Session of a machine that is alive. -/
  named : ∀ (vm : ℕ) (machine : NativeMachine), w.launched[vm]? = some machine → machine.alive →
    ∃ reservation, w.reservation = some reservation ∧ reservation.sessionId = machine.sessionId
  /-- The slot is free when there is neither an operation nor a machine. -/
  free : w.operations = [] → (∀ sessionId, w.machines.get? sessionId = none) →
    w.reservation = none

theorem NativeRuntime.Tracked.exclusive {w : NativeRuntime} (h : w.Tracked) : w.Exclusive := by
  have hregistered : ∀ (vm : ℕ) (machine : NativeMachine), w.launched[vm]? = some machine →
      machine.alive → w.machines.get? machine.sessionId = some vm := by
    intro vm machine hmachine halive
    refine h.present vm machine hmachine ?_
    by_contra hexited
    rw [Bool.not_eq_false] at hexited
    rw [h.dead vm machine hmachine hexited] at halive
    cases halive
  refine ⟨fun vm vm' halive halive' ↦ ?_, fun vm machine hmachine halive ↦ ?_,
    fun hoperations hmachines ↦ ?_⟩
  · obtain ⟨machine, hmachine, ha⟩ := (Option.any_eq_true _ _).mp halive
    obtain ⟨machine', hmachine', ha'⟩ := (Option.any_eq_true _ _).mp halive'
    have hvm : w.machines.get? machine.sessionId = some vm := hregistered vm machine hmachine ha
    have hvm' : w.machines.get? machine'.sessionId = some vm' :=
      hregistered vm' machine' hmachine' ha'
    -- Both Sessions are the one the reservation names.
    obtain ⟨reservation, hr, hs⟩ := h.held _ vm hvm
    obtain ⟨reservation', hr', hs'⟩ := h.held _ vm' hvm'
    rw [hr] at hr'
    cases hr'
    rw [← hs, hs', hvm'] at hvm
    exact (Option.some.inj hvm).symm
  · exact h.held _ vm (hregistered vm machine hmachine halive)
  · cases hr : w.reservation with
    | none => rfl
    | some reservation =>
      cases reservation with
      | pending sessionId operation =>
        obtain ⟨pid, key, hop⟩ := h.pending sessionId ⟨operation, hr⟩
        rw [hoperations] at hop
        cases hop
      | running sessionId => exact absurd (hmachines sessionId) (h.running sessionId hr)

namespace LocalNativeRuntime

/-- An operation gives up no slot of another Session. -/
theorem reservation_releaseOperation {w : NativeRuntime} {sessionId sessionId' : String}
    {operation : ReservedOperation}
    (hpending : w.reservation = some (.pending sessionId operation))
    (hne : sessionId' ≠ sessionId) :
    (w.releaseOperation sessionId').reservation = w.reservation := by
  have hother : sessionId ≠ sessionId' := Ne.symm hne
  rw [NativeRuntime.releaseOperation, if_neg]
  rw [hpending]
  simp [Reservation.sessionId, hother]

/-- A slot that an operation holds is given up only by an operation of that Session. -/
theorem reservation_of_step {pid : ℕ} {e : MachineRequest} {x : MachineChoice} {a : e.Answer}
    {w w' : NativeRuntime} {sessionId : String} {operation : ReservedOperation}
    (h : w.Tracked) (hown : Owns pid e w) (ha : handleNative pid e x w = some (a, w'))
    (hpending : w.reservation = some (.pending sessionId operation)) :
    w'.reservation = w.reservation ∨
      (e = .releaseOperation sessionId ∧ w.Operates pid sessionId) := by
  cases e with
  | admitOperation key =>
    simp only [handleNative] at ha
    split at ha <;> cases ha <;> exact .inl rfl
  | enter key session =>
    simp only [handleNative] at ha
    split at ha <;> cases ha
    exact .inl rfl
  | probeSession =>
    simp only [handleNative] at ha
    split at ha <;> cases ha
    exact .inl rfl
  | reserve sessionId' operation' provenance facts available needed =>
    simp only [handleNative] at ha
    split at ha <;> cases ha
    · next hadmitted => exact absurd hpending (not_pending_of_slot (slot_of_admission hadmitted))
    · exact .inl rfl
  | releaseOperation sessionId' =>
    -- A release of another Session leaves the reservation.
    by_cases hsame : sessionId' = sessionId
    · exact .inr ⟨by rw [hsame], hsame ▸ hown⟩
    · cases ha
      exact .inl (reservation_releaseOperation hpending hsame)
  | launch sessionId' disposable =>
    simp only [handleNative] at ha
    split at ha <;> cases ha <;> exact .inl rfl
  | unregister sessionId' vm =>
    cases ha
    rw [unregister_of_exited h hown]
    exact .inl rfl
  | settleStop sessionId' vm =>
    cases ha
    rw [settleStop_eq h hown]
    exact .inl rfl
  | die vm =>
    simp only [handleNative] at ha
    split at ha <;> cases ha
    exact .inl rfl
  | exitCallback vm =>
    simp only [handleNative] at ha
    split at ha
    · cases ha
    next machine _ =>
    split at ha <;> cases ha
    left
    rw [NativeRuntime.reservation_exitCallback, if_neg (by rw [hpending]; simp)]
  | leave key =>
    cases ha
    exact .inl rfl
  | setUnallocated sessionId' absent =>
    cases ha
    exact .inl rfl
  | beginClose =>
    cases ha
    exact .inl rfl
  | _ =>
    rw [handle_quiet ha trivial]
    exact .inl rfl

abbrev NativeRuntimeConfig : Type :=
  Config NativeRuntime MachineRequest MachineRequest.Answer NativeError Unit Call

/-- **The slot is exclusive**, in every run in which a disposable worker has a Session of its own:
one machine at most, which the reservation names; no Session takes the slot from an operation of
another; and the slot is free once nothing uses it. -/
theorem slot_exclusive {c : NativeRuntimeConfig} (hc : Reachable service Apart .fresh c) :
    c.state.Exclusive ∧ ∀ ev c' sessionId operation, Permits Apart c ev →
      service.step c ev = some c' →
      c.state.reservation = some (.pending sessionId operation) →
        c'.state.reservation = c.state.reservation ∨ ∃ pid x call k,
          ev = .resume pid x ∧ c.procs pid = some (call, .call (.releaseOperation sessionId) k) ∧
          c.state.Operates pid sessionId := by
  have hsound := exclusive_verified.reachable hc
  have htracked : c.state.Tracked := hsound.inv
  refine ⟨htracked.exclusive, fun ev c' sessionId operation hp hs hpending ↦ ?_⟩
  cases ev with
  | start pid call =>
    obtain ⟨-, hstate, -⟩ := step_start_eq_some hs
    exact .inl (congrArg _ hstate)
  | resume pid x =>
    obtain ⟨call, e, k, a, hproc, -, -⟩ := step_resume_eq_some hs
    obtain ⟨-, hown, x', a', ha'⟩ := exclusive_verified.resume hsound hproc hp hs
    -- Only the operation that made the reservation can release it.
    rcases reservation_of_step htracked hown ha' hpending with hsame | ⟨rfl, hop⟩
    · exact .inl hsame
    · exact .inr ⟨pid, x, call, k, rfl, hproc, hop⟩

end LocalNativeRuntime

/-! ## Two runs

A disposable worker is asked for on behalf of a Session that is starting. It is refused, as the
Session is not one of a probe, and its clean-up releases the slot of the start. -/

def sampleStart (sessionId : String) : LocalNativeRuntime.Call :=
  .start ⟨sessionId, sessionId, true⟩

/-- The answers that go well. -/
def resumes (pid n : ℕ) : List (Event LocalNativeRuntime.Call MachineChoice) :=
  List.replicate n (.resume pid {})

def sampleTakeover : List (Event LocalNativeRuntime.Call MachineChoice) :=
  .start 0 (sampleStart "sess_a") :: resumes 0 6 ++
  .start 1 (.withDisposableWorker ⟨"sess_a", "sess_a", true⟩) :: resumes 1 7 ++
  .start 2 (sampleStart "sess_b") :: resumes 2 11 ++ resumes 0 5

theorem slot_taken_over :
    ∃ c, Service.Reachable LocalNativeRuntime.service .free .fresh c ∧
      c.state.isAlive 0 ∧ c.state.isAlive 1 ∧
      c.state.reservation = some (.pending "sess_b" .worker) := by
  have hrun : (LocalNativeRuntime.service.run .free sampleTakeover (.initial .fresh)).map
      (fun c ↦ (c.state.isAlive 0 && c.state.isAlive 1, c.state.reservation)) =
        some (true, some (.pending "sess_b" .worker)) := by
    decide
  obtain ⟨c, hc, hfields⟩ := Option.map_eq_some_iff.mp hrun
  obtain ⟨halive, hreservation⟩ := Prod.mk.inj hfields
  rw [Bool.and_eq_true] at halive
  exact ⟨c, Service.leads_of_run hc, halive.1, halive.2, hreservation⟩

/-- A worker is started while a disposable worker waits for its own slot. -/
def sampleApart : List (Event LocalNativeRuntime.Call MachineChoice) :=
  .start 0 (sampleStart "sess_a") :: resumes 0 11 ++
  .start 1 (.withDisposableWorker ⟨"sess_b", "sess_b", true⟩) :: resumes 1 2 ++
  .resume 1 { fault := some (.message "aborted") } :: resumes 1 3

/-- The machine that was launched is the only one, whoever else asks for the slot. -/
theorem sampleApart_exclusive :
    ∃ c, LocalNativeRuntime.service.run LocalNativeRuntime.Apart sampleApart (.initial .fresh) =
        some c ∧ c.state.isAlive 0 ∧ ∀ vm, c.state.isAlive vm → vm = 0 := by
  have hrun : (LocalNativeRuntime.service.run LocalNativeRuntime.Apart sampleApart
      (.initial .fresh)).map (fun c ↦ c.state.isAlive 0) = some true := by
    decide
  obtain ⟨c, hc, halive⟩ := Option.map_eq_some_iff.mp hrun
  obtain ⟨hexclusive, -⟩ := LocalNativeRuntime.slot_exclusive (Service.leads_of_run hc)
  exact ⟨c, hc, halive, fun vm hvm ↦ hexclusive.one vm 0 hvm halive⟩

end RatThings
