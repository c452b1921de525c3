import Mathlib.Control.Monad.Basic
import Mathlib.Data.List.Nodup
import RatThings.Library.RelyGuarantee
import RatThings.Runner.Control

/-!
# A Turn is steered once by an operation

A bridge is told to steer a Turn by commands that carry an operation id, and it repeats to each of
them what became of the operation. This module says what that comes to, in every run of commands,
answers of the harness and time limits, and when it is once.

## The construction

While an operation is remembered, its promise belongs to one command, and only that command sends a
request for it. The other commands with its id wait for the promise, if they say the same, and are
turned away if they do not. So a request is sent twice only after the operation was forgotten,
which is what becomes of an operation that fails, also when its request was sent and may have taken
effect. `steeringDiscipline` is the condition that no command repeats such an operation, nor one
with another content.

## The invariant

`Begun`, `Unsent` and `Succeeded` are what the command that owns a promise knows, `Waits` what the
others know; `BridgeWorld.Advances` is what a step of any command leaves to them. They differ in
what may still be sent: nothing after `Succeeded`, one request after `Unsent`, and none of another
command's before the operation ends.

Under the discipline `SteersOnce` holds of every world that is reached, and `NoMoreSent` of every
step behind a success: a command that repeats an operation which has succeeded returns and changes
nothing. The runs at the end show a repetition of each kind.
-/

namespace RatThings

open Concurrent Service Setting

/-! ## The invariant

The requests that were sent are kept as ghost state beside what the bridge remembers. The invariant
ties the two: every request is of an operation that is remembered, or of one that was forgotten. -/

structure BridgeWorld.Consistent (w : BridgeWorld) : Prop where
  short : ∀ command ∈ w.accepted, utf16Length command.operationId ≤ 512
  /-- Every operation has its own promise. -/
  apart : ∀ id id' o o', w.operations.get? id = some o → w.operations.get? id' = some o' →
    o.promise = o'.promise → id = id'
  promised : ∀ id o, w.operations.get? id = some o → o.promise.2 < w.next
  settled : ∀ promise, w.next ≤ promise.2 → w.settled promise = none
  /-- An operation that is remembered has not failed. -/
  open_or_ok : ∀ id o, w.operations.get? id = some o →
    w.settled o.promise = none ∨ w.settled o.promise = some (.ok ())
  begun : ∀ id o, w.operations.get? id = some o → ⟨id, o.content⟩ ∈ w.accepted
  failed_accepted : ∀ f ∈ w.failed, f.command ∈ w.accepted
  /-- The commands of an operation say the same. -/
  same : ∀ command ∈ w.accepted, ∀ other ∈ w.accepted,
    command.operationId = other.operationId → command.content = other.content
  /-- An operation that was begun is remembered, or has failed. -/
  kept : ∀ command ∈ w.accepted, (w.operations.get? command.operationId).isSome ∨
    ∃ f ∈ w.failed, f.command.operationId = command.operationId
  sent_accepted : ∀ s ∈ w.sent, s.command ∈ w.accepted
  sent_promised : ∀ s ∈ w.sent, s.promise.2 < w.next
  /-- A request was sent for an operation that is remembered, or that failed after it. -/
  sent_kept : ∀ s ∈ w.sent,
    (∃ o, w.operations.get? s.command.operationId = some o ∧ o.promise = s.promise) ∨
      ∃ f ∈ w.failed, f.command.operationId = s.command.operationId ∧ f.sent = true
  once : (w.sent.map (·.command.operationId)).Nodup

/-- What one step of a command may do. -/
structure BridgeWorld.Advances (pid : ℕ) (w w' : BridgeWorld) : Prop where
  next : w.next ≤ w'.next
  /-- The operations of other commands stay. -/
  others : ∀ id o, w.operations.get? id = some o → o.promise.1 ≠ pid →
    w'.operations.get? id = some o
  settled : ∀ promise, promise.1 ≠ pid → w'.settled promise = w.settled promise
  accepted : ∀ command ∈ w.accepted, command ∈ w'.accepted
  /-- What is sent belongs to an operation that this command has begun and not ended. -/
  sent : ∀ s ∈ w'.sent, s ∈ w.sent ∨ s.promise.1 = pid ∧ ∃ o,
    w.operations.get? s.command.operationId = some o ∧ o.promise = s.promise ∧
      w.settled o.promise = none
  failed : ∀ f ∈ w'.failed, f ∈ w.failed ∨
    ∃ o, w.operations.get? f.command.operationId = some o ∧ o.promise.1 = pid
  /-- A promise is settled once. -/
  final : ∀ promise r, w.settled promise = some r → w'.settled promise = some r
  /-- An operation that is forgotten has failed. -/
  forgotten : ∀ id o, w.operations.get? id = some o →
    w'.operations.get? id = some o ∨ ∃ error, w'.settled o.promise = some (.error error)

theorem BridgeWorld.Advances.refl (pid : ℕ) (w : BridgeWorld) : w.Advances pid w where
  next := Nat.le_refl _
  others _ _ h _ := h
  settled _ _ := rfl
  accepted _ h := h
  sent _ h := .inl h
  failed _ h := .inl h
  final _ _ h := h
  forgotten _ _ h := .inl h

/-! ## What a command knows

A command holds its promise from `register` to its end, and nobody else settles it. All three facts
are stable under the steps of the others, for these touch the promise of another operation. -/

/-- The command has begun its operation, and not ended it. -/
structure Begun (promise : PromiseId) (command : SteerCommand) (w : BridgeWorld) : Prop where
  remembered : w.operations.get? command.operationId = some ⟨command.content, promise⟩
  pending : w.settled promise = none
  clean : ∀ f ∈ w.failed, f.command.operationId = command.operationId → f.sent = false

/-- Besides, it has not sent its request. -/
def Unsent (promise : PromiseId) (w : BridgeWorld) : Prop := ∀ s ∈ w.sent, s.promise ≠ promise

/-- The operation has succeeded. -/
def Succeeded (command : SteerCommand) (w : BridgeWorld) : Prop :=
  ∃ o, w.operations.get? command.operationId = some o ∧ o.content = command.content ∧
    w.settled o.promise = some (.ok ())

section

variable {pid : ℕ} {w w' : BridgeWorld} {promise : PromiseId} {command : SteerCommand}

theorem Begun.stable (h : Begun promise command w) (hadvances : w.Advances pid w')
    (hpid : promise.1 ≠ pid) : Begun promise command w' where
  remembered := hadvances.others _ _ h.remembered hpid
  pending := (hadvances.settled promise hpid).trans h.pending
  clean f hf hid := by
    rcases hadvances.failed f hf with hbefore | ⟨o, ho, howner⟩
    · exact h.clean f hbefore hid
    · rw [hid, h.remembered] at ho
      cases ho
      exact absurd howner hpid

theorem Unsent.stable (h : Unsent promise w) (hadvances : w.Advances pid w')
    (hpid : promise.1 ≠ pid) : Unsent promise w' := by
  intro s hs heq
  rcases hadvances.sent s hs with hbefore | ⟨howner, -⟩
  · exact h s hbefore heq
  · exact hpid (heq ▸ howner)

theorem Succeeded.advances (h : Succeeded command w) (hadvances : w.Advances pid w') :
    Succeeded command w' := by
  obtain ⟨o, ho, hcontent, hok⟩ := h
  have hok' := hadvances.final _ _ hok
  refine ⟨o, ?_, hcontent, hok'⟩
  refine (hadvances.forgotten _ o ho).resolve_right ?_
  rintro ⟨error, herror⟩
  rw [hok'] at herror
  cases herror

end

/-! ## Commands that arrive

A command finds its operation or begins it. The ledger is looked at and written to within one step,
so two commands with one id do not both begin it. -/

/-- No attempt of the operation was forgotten after its request had been sent, and none that says
something else. -/
def Retained (command : SteerCommand) (w : BridgeWorld) : Prop :=
  w.operations.get? command.operationId = none →
    ∀ f ∈ w.failed, f.command.operationId = command.operationId →
      f.sent = false ∧ f.command.content = command.content

section

variable {pid : ℕ} {w w' : BridgeWorld} {promise : PromiseId} {command : SteerCommand}

/-- The world in which a command repeats an operation. -/
def repeatOperation (command : SteerCommand) (w : BridgeWorld) : BridgeWorld :=
  { w with accepted := w.accepted ++ [command] }

/-- The world in which a command begins an operation. -/
def beginOperation (pid : ℕ) (command : SteerCommand) (w : BridgeWorld) : BridgeWorld :=
  { w with
    operations := w.operations.set command.operationId ⟨command.content, (pid, w.next)⟩
    next := w.next + 1
    accepted := w.accepted ++ [command] }

theorem register_cases (pid : ℕ) (command : SteerCommand) (w : BridgeWorld) :
    (∃ error, BridgeOptions.register pid command w = (.refused error, w)) ∨
    (∃ o, w.operations.get? command.operationId = some o ∧ o.content = command.content ∧
      BridgeOptions.register pid command w = (.repeated o.promise, repeatOperation command w)) ∨
    (w.operations.get? command.operationId = none ∧ utf16Length command.operationId ≤ 512 ∧
      BridgeOptions.register pid command w =
        (.begun (pid, w.next), beginOperation pid command w)) := by
  unfold BridgeOptions.register
  split
  · exact .inl ⟨_, rfl⟩
  · next hlong =>
    cases hread : w.operations.get? command.operationId with
    | some existing =>
      dsimp only
      split
      · exact .inl ⟨_, rfl⟩
      · next hsame => exact .inr (.inl ⟨existing, rfl, not_not.mp hsame, rfl⟩)
    | none =>
      dsimp only
      split
      · exact .inl ⟨_, rfl⟩
      · exact .inr (.inr ⟨rfl, Nat.le_of_not_lt hlong, rfl⟩)

/-- A command that repeats an operation says what was said. -/
theorem same_of_remembered (hw : w.Consistent) {o : Operation}
    (hread : w.operations.get? command.operationId = some o) {other : SteerCommand}
    (hother : other ∈ w.accepted) (hid : other.operationId = command.operationId) :
    other.content = o.content :=
  hw.same other hother ⟨command.operationId, o.content⟩ (hw.begun _ o hread) hid

theorem Retained.same (h : Retained command w) (hw : w.Consistent)
    (hread : w.operations.get? command.operationId = none) {other : SteerCommand}
    (hother : other ∈ w.accepted) (hid : other.operationId = command.operationId) :
    other.content = command.content := by
  rcases hw.kept other hother with hsome | ⟨f, hf, hfid⟩
  · rw [hid, hread] at hsome
    cases hsome
  · have hcontent := (h hread f hf (hfid.trans hid)).2
    rw [← hcontent]
    exact hw.same other hother f.command (hw.failed_accepted f hf) hfid.symm

/-- The commands of an operation still say the same when one more is accepted. -/
theorem same_append {accepted : List SteerCommand}
    (h : ∀ a ∈ accepted, ∀ b ∈ accepted, a.operationId = b.operationId → a.content = b.content)
    (hnew : ∀ a ∈ accepted, a.operationId = command.operationId → a.content = command.content) :
    ∀ a ∈ accepted ++ [command], ∀ b ∈ accepted ++ [command],
      a.operationId = b.operationId → a.content = b.content := by
  intro a ha b hb hid
  rcases List.mem_append.mp ha with hold | ha' <;> rcases List.mem_append.mp hb with hold' | hb'
  · exact h a hold b hold' hid
  · rw [List.mem_singleton.mp hb'] at hid ⊢
    exact hnew a hold hid
  · rw [List.mem_singleton.mp ha'] at hid ⊢
    exact (hnew b hold' hid.symm).symm
  · rw [List.mem_singleton.mp ha', List.mem_singleton.mp hb']

theorem consistent_repeat (hw : w.Consistent) {o : Operation}
    (hread : w.operations.get? command.operationId = some o)
    (hcontent : o.content = command.content) : (repeatOperation command w).Consistent where
  short a ha := by
    rcases List.mem_append.mp ha with hold | hnew
    · exact hw.short a hold
    · rw [List.mem_singleton.mp hnew]
      exact hw.short ⟨command.operationId, o.content⟩ (hw.begun _ o hread)
  apart := hw.apart
  promised := hw.promised
  settled := hw.settled
  open_or_ok := hw.open_or_ok
  begun id o h := List.mem_append_left _ (hw.begun id o h)
  failed_accepted f hf := List.mem_append_left _ (hw.failed_accepted f hf)
  same := same_append hw.same fun a ha hid ↦
    (same_of_remembered hw hread ha hid).trans hcontent
  kept other hother := by
    rcases List.mem_append.mp hother with hother | hnew
    · exact hw.kept other hother
    · rw [List.mem_singleton.mp hnew]
      exact .inl (Option.isSome_iff_exists.mpr ⟨o, hread⟩)
  sent_accepted s hs := List.mem_append_left _ (hw.sent_accepted s hs)
  sent_promised := hw.sent_promised
  sent_kept := hw.sent_kept
  once := hw.once

theorem advances_repeat : w.Advances pid (repeatOperation command w) where
  next := Nat.le_refl _
  others _ _ h _ := h
  settled _ _ := rfl
  accepted _ h := List.mem_append_left _ h
  sent _ h := .inl h
  failed _ h := .inl h
  final _ _ h := h
  forgotten _ _ h := .inl h

/-- An operation is remembered beside the new one. -/
theorem get?_begin {id : String} {o : Operation}
    (h : (beginOperation pid command w).operations.get? id = some o) :
    id = command.operationId ∧ o = ⟨command.content, (pid, w.next)⟩ ∨
      id ≠ command.operationId ∧ w.operations.get? id = some o := by
  by_cases hid : id = command.operationId
  · subst hid
    rw [beginOperation, OrderedMap.get?_set_self] at h
    exact .inl ⟨rfl, (Option.some.inj h).symm⟩
  · rw [beginOperation, OrderedMap.get?_set_of_ne _ hid] at h
    exact .inr ⟨hid, h⟩

theorem get?_begin_of_get? {id : String} {o : Operation}
    (hread : w.operations.get? command.operationId = none)
    (h : w.operations.get? id = some o) :
    (beginOperation pid command w).operations.get? id = some o := by
  have hid : id ≠ command.operationId := by
    rintro rfl
    rw [hread] at h
    cases h
  rw [beginOperation, OrderedMap.get?_set_of_ne _ hid, h]

theorem consistent_begin (hw : w.Consistent) (h : Retained command w)
    (hread : w.operations.get? command.operationId = none)
    (hshort : utf16Length command.operationId ≤ 512) :
    (beginOperation pid command w).Consistent where
  short a ha := by
    rcases List.mem_append.mp ha with hold | hnew
    · exact hw.short a hold
    · rw [List.mem_singleton.mp hnew]
      exact hshort
  apart id id' o o' ho ho' heq := by
    rcases get?_begin ho with ⟨rfl, rfl⟩ | ⟨-, hold⟩ <;>
      rcases get?_begin ho' with ⟨rfl, rfl⟩ | ⟨-, hold'⟩
    · rfl
    · -- The new promise has a serial number that no promise had before.
      have hlt := hw.promised id' o' hold'
      rw [← heq] at hlt
      exact absurd hlt (Nat.lt_irrefl _)
    · have hlt := hw.promised id o hold
      rw [heq] at hlt
      exact absurd hlt (Nat.lt_irrefl _)
    · exact hw.apart id id' o o' hold hold' heq
  promised id o ho := by
    rcases get?_begin ho with ⟨-, rfl⟩ | ⟨-, hold⟩
    · exact Nat.lt_succ_self _
    · exact Nat.lt_succ_of_lt (hw.promised id o hold)
  settled promise hnext := hw.settled promise (Nat.le_of_succ_le hnext)
  open_or_ok id o ho := by
    rcases get?_begin ho with ⟨-, rfl⟩ | ⟨-, hold⟩
    · exact .inl (hw.settled _ (Nat.le_refl _))
    · exact hw.open_or_ok id o hold
  begun id o ho := by
    rcases get?_begin ho with ⟨rfl, rfl⟩ | ⟨-, hold⟩
    · exact List.mem_append_right _ (List.mem_singleton.mpr rfl)
    · exact List.mem_append_left _ (hw.begun id o hold)
  failed_accepted f hf := List.mem_append_left _ (hw.failed_accepted f hf)
  same := same_append hw.same fun a ha hid ↦ h.same hw hread ha hid
  kept other hother := by
    rcases List.mem_append.mp hother with hother | hnew
    · refine (hw.kept other hother).imp_left fun hsome ↦ ?_
      obtain ⟨o, ho⟩ := Option.isSome_iff_exists.mp hsome
      exact Option.isSome_iff_exists.mpr ⟨o, get?_begin_of_get? hread ho⟩
    · rw [List.mem_singleton.mp hnew]
      exact .inl (Option.isSome_iff_exists.mpr ⟨_, OrderedMap.get?_set_self _ _ _⟩)
  sent_accepted s hs := List.mem_append_left _ (hw.sent_accepted s hs)
  sent_promised s hs := Nat.lt_succ_of_lt (hw.sent_promised s hs)
  sent_kept s hs := by
    refine (hw.sent_kept s hs).imp_left ?_
    rintro ⟨o, ho, hpromise⟩
    exact ⟨o, get?_begin_of_get? hread ho, hpromise⟩
  once := hw.once

theorem advances_begin (hread : w.operations.get? command.operationId = none) :
    w.Advances pid (beginOperation pid command w) where
  next := Nat.le_succ _
  others _ _ h _ := get?_begin_of_get? hread h
  settled _ _ := rfl
  accepted _ h := List.mem_append_left _ h
  sent _ h := .inl h
  failed _ h := .inl h
  final _ _ h := h
  forgotten _ _ h := .inl (get?_begin_of_get? hread h)

theorem begun_begin (hw : w.Consistent) (h : Retained command w)
    (hread : w.operations.get? command.operationId = none) :
    Begun (pid, w.next) command (beginOperation pid command w) ∧
      Unsent (pid, w.next) (beginOperation pid command w) := by
  refine ⟨⟨OrderedMap.get?_set_self _ _ _, hw.settled _ (Nat.le_refl _), fun f hf hid ↦
    (h hread f hf hid).1⟩, fun s hs heq ↦ ?_⟩
  have hlt := hw.sent_promised s hs
  rw [heq] at hlt
  exact absurd hlt (Nat.lt_irrefl _)

/-! ## Requests and their responses

The request is sent, and answered, by the command that began the operation. Its response settles the
promise, and a request that fails or times out makes the bridge forget it. -/

/-- What the runtime remembers does not concern the operations. -/
theorem consistent_native (hw : w.Consistent) (native : OrderedMap String NativeOperation)
    (answered : PromiseId → Option (Except String Unit)) :
    ({ w with native := native, answered := answered } : BridgeWorld).Consistent :=
  ⟨hw.short, hw.apart, hw.promised, hw.settled, hw.open_or_ok, hw.begun, hw.failed_accepted,
    hw.same, hw.kept,
    hw.sent_accepted, hw.sent_promised, hw.sent_kept, hw.once⟩

theorem advances_native (native : OrderedMap String NativeOperation)
    (answered : PromiseId → Option (Except String Unit)) :
    w.Advances pid { w with native := native, answered := answered } where
  next := Nat.le_refl _
  others _ _ h _ := h
  settled _ _ := rfl
  accepted _ h := h
  sent _ h := .inl h
  failed _ h := .inl h
  final _ _ h := h
  forgotten _ _ h := .inl h

/-- The world in which the request of an operation is sent. -/
def sendSteer (native : OrderedMap String NativeOperation) (s : SentSteer) (w : BridgeWorld) :
    BridgeWorld := { w with native := native, sent := w.sent ++ [s] }

theorem execute_cases (options : BridgeOptions) (harness : Harness) (promise : PromiseId)
    (command : SteerCommand) (w : BridgeWorld) :
    (∃ r native answered, options.execute harness promise command w =
      (r, { w with native := native, answered := answered })) ∨
    ∃ native request, options.execute harness promise command w =
      (.ok promise, sendSteer native ⟨promise, command, request⟩ w) := by
  have hsame : ∀ r : Except String PromiseId, ∃ r' native answered, (r, w) =
      (r', ({ w with native := native, answered := answered } : BridgeWorld)) :=
    fun r ↦ ⟨r, w.native, w.answered, rfl⟩
  unfold BridgeOptions.execute
  split
  · exact .inl (hsame _)
  split
  · exact .inl (hsame _)
  split
  · exact .inl (hsame _)
  unfold BridgeOptions.steerNative
  dsimp only
  split
  · split
    · exact .inl (hsame _)
    · exact .inl (hsame _)
  split
  · exact .inl (hsame _)
  split
  · exact .inl (hsame _)
  split
  · exact .inl ⟨_, _, _, rfl⟩
  · exact .inr ⟨_, _, rfl⟩

theorem consistent_send (hw : w.Consistent) (hbegun : Begun promise command w)
    (hunsent : Unsent promise w) (native : OrderedMap String NativeOperation)
    (request : SteerRequest) : (sendSteer native ⟨promise, command, request⟩ w).Consistent where
  short := hw.short
  apart := hw.apart
  promised := hw.promised
  settled := hw.settled
  open_or_ok := hw.open_or_ok
  begun := hw.begun
  failed_accepted := hw.failed_accepted
  same := hw.same
  kept := hw.kept
  sent_accepted s hs := by
    rcases List.mem_append.mp hs with hold | hnew
    · exact hw.sent_accepted s hold
    · rw [List.mem_singleton.mp hnew]
      exact hw.begun _ _ hbegun.remembered
  sent_promised s hs := by
    rcases List.mem_append.mp hs with hold | hnew
    · exact hw.sent_promised s hold
    · rw [List.mem_singleton.mp hnew]
      exact hw.promised _ _ hbegun.remembered
  sent_kept s hs := by
    rcases List.mem_append.mp hs with hold | hnew
    · exact hw.sent_kept s hold
    · rw [List.mem_singleton.mp hnew]
      exact .inl ⟨_, hbegun.remembered, rfl⟩
  once := by
    rw [sendSteer, List.map_append, List.map_singleton, List.nodup_append]
    refine ⟨hw.once, List.nodup_singleton _, fun id hid id' hid' heq ↦ ?_⟩
    obtain ⟨s, hs, rfl⟩ := List.mem_map.mp hid
    rw [List.mem_singleton.mp hid'] at heq
    -- An earlier request would be that of this promise, or of an attempt that was forgotten.
    rcases hw.sent_kept s hs with ⟨o, ho, hpromise⟩ | ⟨f, hf, hfid, hsent⟩
    · rw [heq, hbegun.remembered] at ho
      cases ho
      exact hunsent s hs hpromise.symm
    · rw [hbegun.clean f hf (hfid.trans heq)] at hsent
      cases hsent

theorem advances_send (hbegun : Begun promise command w)
    (native : OrderedMap String NativeOperation) (request : SteerRequest) :
    w.Advances promise.1 (sendSteer native ⟨promise, command, request⟩ w) where
  next := Nat.le_refl _
  others _ _ h _ := h
  settled _ _ := rfl
  accepted _ h := h
  sent s hs := by
    rcases List.mem_append.mp hs with hold | hnew
    · exact .inl hold
    · rw [List.mem_singleton.mp hnew]
      exact .inr ⟨rfl, _, hbegun.remembered, rfl, hbegun.pending⟩
  failed _ h := .inl h
  final _ _ h := h
  forgotten _ _ h := .inl h

/-! ## Ends -/

/-- The world in which an operation has succeeded. -/
def resolveOperation (promise : PromiseId) (w : BridgeWorld) : BridgeWorld :=
  { w with settled := Function.update w.settled promise (some (.ok ())) }

theorem settled_resolve_self : (resolveOperation promise w).settled promise = some (.ok ()) :=
  Function.update_self ..

theorem settled_resolve {other : PromiseId} (hne : other ≠ promise) :
    (resolveOperation promise w).settled other = w.settled other := Function.update_of_ne hne ..

theorem consistent_resolve (hw : w.Consistent) (hbegun : Begun promise command w) :
    (resolveOperation promise w).Consistent where
  short := hw.short
  apart := hw.apart
  promised := hw.promised
  settled other hnext := by
    have hne : other ≠ promise := by
      rintro rfl
      exact absurd (hw.promised _ _ hbegun.remembered) (Nat.not_lt.mpr hnext)
    exact (settled_resolve hne).trans (hw.settled other hnext)
  open_or_ok id o ho := by
    by_cases heq : o.promise = promise
    · rw [heq]
      exact .inr settled_resolve_self
    · rw [settled_resolve heq]
      exact hw.open_or_ok id o ho
  begun := hw.begun
  failed_accepted := hw.failed_accepted
  same := hw.same
  kept := hw.kept
  sent_accepted := hw.sent_accepted
  sent_promised := hw.sent_promised
  sent_kept := hw.sent_kept
  once := hw.once

theorem advances_resolve (hbegun : Begun promise command w) :
    w.Advances promise.1 (resolveOperation promise w) where
  next := Nat.le_refl _
  others _ _ h _ := h
  settled other hpid := by
    refine settled_resolve ?_
    rintro rfl
    exact hpid rfl
  accepted _ h := h
  sent _ h := .inl h
  failed _ h := .inl h
  final other r hr := by
    have hne : other ≠ promise := by
      rintro rfl
      rw [hbegun.pending] at hr
      cases hr
    exact (settled_resolve hne).trans hr
  forgotten _ _ h := .inl h

/-- The operations that a failure leaves. -/
theorem get?_reject {error : String} {id : String} {o : Operation} :
    (BridgeOptions.rejectOperation promise command error w).operations.get? id = some o ↔
      id ≠ command.operationId ∧ w.operations.get? id = some o := by
  by_cases hid : id = command.operationId
  · subst hid
    rw [BridgeOptions.rejectOperation, OrderedMap.get?_erase_self]
    simp
  · rw [BridgeOptions.rejectOperation, OrderedMap.get?_erase_of_ne _ hid]
    simp [hid]

theorem settled_reject {error : String} {other : PromiseId} (hne : other ≠ promise) :
    (BridgeOptions.rejectOperation promise command error w).settled other = w.settled other :=
  Function.update_of_ne hne ..

theorem consistent_reject (hw : w.Consistent) (hbegun : Begun promise command w) (error : String) :
    (BridgeOptions.rejectOperation promise command error w).Consistent where
  short := hw.short
  apart id id' o o' ho ho' := hw.apart id id' o o' (get?_reject.mp ho).2 (get?_reject.mp ho').2
  promised id o ho := hw.promised id o (get?_reject.mp ho).2
  settled other hnext := by
    have hne : other ≠ promise := by
      rintro rfl
      exact absurd (hw.promised _ _ hbegun.remembered) (Nat.not_lt.mpr hnext)
    rw [settled_reject hne]
    exact hw.settled other hnext
  open_or_ok id o ho := by
    obtain ⟨hid, hold⟩ := get?_reject.mp ho
    have hne : o.promise ≠ promise := fun heq ↦ hid (hw.apart _ _ _ _ hold hbegun.remembered heq)
    rw [settled_reject hne]
    exact hw.open_or_ok id o hold
  begun id o ho := hw.begun id o (get?_reject.mp ho).2
  failed_accepted f hf := by
    rcases List.mem_append.mp hf with hold | hnew
    · exact hw.failed_accepted f hold
    · rw [List.mem_singleton.mp hnew]
      exact hw.begun _ _ hbegun.remembered
  same := hw.same
  kept other hother := by
    by_cases hid : other.operationId = command.operationId
    · exact .inr ⟨_, List.mem_append_right _ (List.mem_singleton.mpr rfl), hid.symm⟩
    · rcases hw.kept other hother with hsome | ⟨f, hf, hfid⟩
      · obtain ⟨o, ho⟩ := Option.isSome_iff_exists.mp hsome
        exact .inl (Option.isSome_iff_exists.mpr ⟨o, get?_reject.mpr ⟨hid, ho⟩⟩)
      · exact .inr ⟨f, List.mem_append_left _ hf, hfid⟩
  sent_accepted := hw.sent_accepted
  sent_promised := hw.sent_promised
  sent_kept s hs := by
    rcases hw.sent_kept s hs with ⟨o, ho, hpromise⟩ | ⟨f, hf, hfid, hsent⟩
    · by_cases hid : s.command.operationId = command.operationId
      · rw [hid, hbegun.remembered] at ho
        cases ho
        refine .inr ⟨_, List.mem_append_right _ (List.mem_singleton.mpr rfl), hid.symm, ?_⟩
        exact List.any_eq_true.mpr ⟨s, hs, beq_iff_eq.mpr hpromise.symm⟩
      · exact .inl ⟨o, get?_reject.mpr ⟨hid, ho⟩, hpromise⟩
    · exact .inr ⟨f, List.mem_append_left _ hf, hfid, hsent⟩
  once := hw.once

theorem advances_reject (hbegun : Begun promise command w) (error : String) :
    w.Advances promise.1 (BridgeOptions.rejectOperation promise command error w) where
  next := Nat.le_refl _
  others id o ho hpid := by
    refine get?_reject.mpr ⟨?_, ho⟩
    rintro rfl
    rw [hbegun.remembered] at ho
    cases ho
    exact hpid rfl
  settled other hpid := by
    refine settled_reject ?_
    rintro rfl
    exact hpid rfl
  accepted _ h := h
  sent _ h := .inl h
  failed f hf := by
    rcases List.mem_append.mp hf with hold | hnew
    · exact .inl hold
    · rw [List.mem_singleton.mp hnew]
      exact .inr ⟨_, hbegun.remembered, rfl⟩
  final other r hr := by
    have hne : other ≠ promise := by
      rintro rfl
      rw [hbegun.pending] at hr
      cases hr
    exact (settled_reject hne).trans hr
  forgotten id o ho := by
    by_cases hid : id = command.operationId
    · subst hid
      rw [hbegun.remembered] at ho
      cases ho
      exact .inr ⟨error, Function.update_self ..⟩
    · exact .inl (get?_reject.mpr ⟨hid, ho⟩)

end

/-! ## Steering -/

/-- Commands do not repeat an operation that was forgotten after its request had been sent, or with
another content. -/
def steeringDiscipline : Discipline BridgeWorld BridgeEffect SteerCommand BridgeChoice where
  starts _ _ _ := True
  answers _ e _ w :=
    match e with
    | .register command => Retained command w
    | _ => True

/-- The command waits for an operation that says the same, or that has failed. -/
def Waits (promise : PromiseId) (command : SteerCommand) (w : BridgeWorld) : Prop :=
  (∃ o, w.operations.get? command.operationId = some o ∧ o.content = command.content ∧
    o.promise = promise) ∨ ∃ error, w.settled promise = some (.error error)

section

variable (options : BridgeOptions)

def steeringSetting : Setting BridgeWorld BridgeEffect BridgeEffect.Answer String Unit SteerCommand
    BridgeChoice where
  service := options.service
  discipline := steeringDiscipline
  inv := BridgeWorld.Consistent
  guar p _ w w' := w.Advances p.1 w'

variable {options} {pid : ℕ} {command : SteerCommand} {promise : PromiseId}

theorem stable_begun (hpid : promise.1 = pid) :
    (steeringSetting options).Stable (pid, command) (Begun promise command) :=
  fun _ _ _ _ hq _ _ hadvances h ↦ h.stable hadvances fun heq ↦ hq (heq.symm.trans hpid)

theorem stable_unsent (hpid : promise.1 = pid) :
    (steeringSetting options).Stable (pid, command) (Unsent promise) :=
  fun _ _ _ _ hq _ _ hadvances h ↦ h.stable hadvances fun heq ↦ hq (heq.symm.trans hpid)

theorem permanent_succeeded : (steeringSetting options).Permanent (Succeeded command) :=
  fun _ _ _ _ _ _ hadvances h ↦ h.advances hadvances

theorem permanent_waits : (steeringSetting options).Permanent (Waits promise command) := by
  rintro q e w w' - - hadvances (⟨o, ho, hcontent, rfl⟩ | ⟨error, herror⟩)
  · exact (hadvances.forgotten _ o ho).imp (fun ho' ↦ ⟨o, ho', hcontent, rfl⟩) id
  · exact .inr ⟨error, hadvances.final _ _ herror⟩

theorem meets_orThrow {β : Type} {P : BridgeWorld → Prop} (r : Except String β) :
    (steeringSetting options).Meets (pid, command) P (BridgeOptions.orThrow r) (fun _ ↦ P)
      fun _ ↦ P := by
  cases r with
  | ok b => exact meets_ret fun _ _ h ↦ h
  | error message => exact meets_raise fun _ _ h ↦ h

/-- The program that carries an operation out. -/
theorem meets_executeSteer (hpid : promise.1 = pid) :
    (steeringSetting options).Meets (pid, command)
      (fun w ↦ Begun promise command w ∧ Unsent promise w)
      (BridgeOptions.executeSteer promise command) (fun _ ↦ Begun promise command)
      fun _ ↦ Begun promise command := by
  have hbefore : (steeringSetting options).Stable (pid, command)
      fun w ↦ Begun promise command w ∧ Unsent promise w :=
    (stable_begun hpid).and (stable_unsent hpid)
  refine Meets.bind (M := fun _ w ↦ Begun promise command w ∧ Unsent promise w) ?_ fun handoff ↦ ?_
  · refine meets_perform hbefore fun w x a w' hw hp _ ha ↦ ?_
    cases ha
    exact ⟨hw, .refl _ _, hp⟩
  split
  · exact meets_raise fun _ _ hp ↦ hp.1
  refine Meets.bind (M := fun _ ↦ Begun promise command) ?_ fun request ↦ ?_
  · refine meets_perform hbefore fun w x r w' hw ⟨hbegun, hunsent⟩ _ ha ↦ ?_
    have hexecute := Option.some.inj ha
    rcases execute_cases options x.harness promise command w with
      ⟨r', native, answered, heq⟩ | ⟨native, steer, heq⟩
    · obtain ⟨rfl, rfl⟩ := Prod.mk.inj (heq.symm.trans hexecute)
      exact ⟨consistent_native hw native answered, advances_native native answered,
        ⟨hbegun.remembered, hbegun.pending, hbegun.clean⟩⟩
    · obtain ⟨rfl, rfl⟩ := Prod.mk.inj (heq.symm.trans hexecute)
      exact ⟨consistent_send hw hbegun hunsent native steer,
        hpid ▸ advances_send hbegun native steer,
        ⟨hbegun.remembered, hbegun.pending, hbegun.clean⟩⟩
  refine Meets.bind (meets_orThrow request) fun request ↦ ?_
  refine Meets.bind (M := fun _ ↦ Begun promise command) ?_ fun response ↦ meets_orThrow response
  refine meets_perform (stable_begun hpid) fun w x r w' hw hbegun _ ha ↦ ?_
  have hresponse : options.handle pid (.response promise request) x w = some (r, w') := ha
  unfold BridgeOptions.handle at hresponse
  dsimp only at hresponse
  split at hresponse
  · cases hresponse
    exact ⟨hw, .refl _ _, hbegun⟩
  · split at hresponse
    · cases hresponse
      exact ⟨consistent_native hw _ _, advances_native _ _,
        ⟨hbegun.remembered, hbegun.pending, hbegun.clean⟩⟩
    · cases hresponse

/-- An operation is begun, carried out and ended by one command. -/
theorem meets_begun (hpid : promise.1 = pid) :
    (steeringSetting options).Meets (pid, command)
      (fun w ↦ Begun promise command w ∧ Unsent promise w)
      (Prog.catching
        (do BridgeOptions.executeSteer promise command
            Prog.perform (BridgeEffect.resolve promise))
        fun error ↦ do
          Prog.perform (BridgeEffect.reject promise command error)
          throw error : BridgeOptions.BridgeProg Unit)
      (fun _ ↦ Succeeded command) fun _ _ ↦ True := by
  refine Meets.catching (U := fun _ ↦ Begun promise command) ?_ fun error ↦ ?_
  · refine Meets.bind (meets_executeSteer hpid) fun _ ↦ ?_
    refine meets_perform (stable_begun hpid) fun w x _ w' hw hbegun _ ha ↦ ?_
    cases ha
    refine ⟨consistent_resolve hw hbegun, hpid ▸ advances_resolve hbegun, ?_⟩
    exact ⟨_, hbegun.remembered, rfl, settled_resolve_self⟩
  · refine Meets.bind (M := fun _ _ ↦ True) ?_ fun _ ↦ meets_raise fun _ _ _ ↦ trivial
    refine meets_perform (stable_begun hpid) fun w x _ w' hw hbegun _ ha ↦ ?_
    cases ha
    exact ⟨consistent_reject hw hbegun error, hpid ▸ advances_reject hbegun error, trivial⟩

/-- What a command knows when it has arrived. -/
def Arrived (pid : ℕ) (command : SteerCommand) : Registration → BridgeWorld → Prop
  | .refused _, _ => True
  | .repeated promise, w => Waits promise command w
  | .begun promise, w => promise.1 = pid ∧ Begun promise command w ∧ Unsent promise w

theorem meets_register {P : BridgeWorld → Prop}
    (hP : (steeringSetting options).Stable (pid, command) P) :
    (steeringSetting options).Meets (pid, command) P
      (Prog.perform (BridgeEffect.register command) : BridgeOptions.BridgeProg Registration)
      (Arrived pid command) fun _ _ ↦ False := by
  refine meets_perform hP fun w x registration w' hw _ hretained ha ↦ ?_
  have hregister : BridgeOptions.register pid command w = (registration, w') := Option.some.inj ha
  rcases register_cases pid command w with ⟨error, heq⟩ | ⟨o, hread, hcontent, heq⟩ |
    ⟨hread, hshort, heq⟩ <;> obtain ⟨rfl, rfl⟩ := Prod.mk.inj (heq.symm.trans hregister)
  · exact ⟨hw, .refl _ _, trivial⟩
  · exact ⟨consistent_repeat hw hread hcontent, advances_repeat, .inl ⟨o, hread, hcontent, rfl⟩⟩
  · exact ⟨consistent_begin hw hretained hread hshort, advances_begin hread, rfl,
      begun_begin hw hretained hread⟩

theorem meets_steer :
    (steeringSetting options).Meets (pid, command) (fun _ ↦ True) (BridgeOptions.steer command)
      (fun _ ↦ Succeeded command) fun _ _ ↦ True := by
  refine Meets.bind ((meets_register stable_true).conseq (fun _ _ h ↦ h) (fun _ _ _ h ↦ h)
    fun _ _ _ h ↦ h.elim) fun registration ↦ ?_
  cases registration with
  | refused error => exact meets_raise fun _ _ _ ↦ trivial
  | begun promise =>
    intro w hw ⟨hpid, hbegun⟩
    exact meets_begun hpid w hw hbegun
  | repeated promise =>
    refine Meets.bind (M := fun r w ↦ r = .ok () → Succeeded command w) ?_ fun r ↦ ?_
    · refine meets_perform permanent_waits.stable fun w x r w' hw hwaits _ ha ↦ ?_
      obtain ⟨r', hsettled, heq⟩ := Option.map_eq_some_iff.mp ha
      obtain ⟨rfl, rfl⟩ := Prod.mk.inj heq
      refine ⟨hw, .refl _ _, ?_⟩
      rintro rfl
      rcases hwaits with ⟨o, ho, hcontent, rfl⟩ | ⟨error, herror⟩
      · exact ⟨o, ho, hcontent, hsettled⟩
      · rw [hsettled] at herror
        cases herror
    · cases r with
      | ok _ => exact meets_ret fun _ _ h ↦ h rfl
      | error message => exact meets_raise fun _ _ _ ↦ trivial

/-! ## Repetitions

A repetition of an operation that has succeeded finds its promise fulfilled, and what it awaits is
there at once: its next step is enabled, and returns. -/

theorem register_of_succeeded {w : BridgeWorld} (hw : w.Consistent) (h : Succeeded command w) :
    ∃ o : Operation, BridgeOptions.register pid command w =
        (.repeated o.promise, repeatOperation command w) ∧
      w.settled o.promise = some (.ok ()) := by
  obtain ⟨o, hread, hcontent, hok⟩ := h
  have hshort : utf16Length command.operationId ≤ 512 :=
    hw.short ⟨command.operationId, o.content⟩ (hw.begun _ o hread)
  refine ⟨o, ?_, hok⟩
  rw [BridgeOptions.register, if_neg (Nat.not_lt.mpr hshort), hread]
  exact if_neg (not_not.mpr hcontent)

/-- The promise of an operation that has succeeded. -/
def Fulfilled (promise : PromiseId) (w : BridgeWorld) : Prop := w.settled promise = some (.ok ())

theorem permanent_fulfilled : (steeringSetting options).Permanent (Fulfilled promise) :=
  fun _ _ _ _ _ _ hadvances h ↦ hadvances.final _ _ h

/-- A command may repeat what is remembered. -/
theorem Succeeded.retained {w : BridgeWorld} (h : Succeeded command w) : Retained command w := by
  obtain ⟨o, hread, -, -⟩ := h
  intro hnone
  rw [hread] at hnone
  cases hnone

/-- Waiting for a promise that is fulfilled ends at once. -/
theorem returns_operation {w : BridgeWorld} (h : Fulfilled promise w) :
    (steeringSetting options).Returns (pid, command) 1
      (Prog.perform (BridgeEffect.operation promise) >>= BridgeOptions.orThrow :
        BridgeOptions.BridgeProg Unit) w := by
  refine ⟨Fulfilled promise, permanent_fulfilled.stable, h, fun t _ ht ↦ ?_, ?_⟩
  · exact ⟨{}, .ok (), t, trivial, congrArg (Option.map (·, t)) ht⟩
  · intro t x r t' ht hok _ ha
    obtain ⟨r', hr, heq⟩ := Option.map_eq_some_iff.mp ha
    obtain ⟨rfl, rfl⟩ := Prod.mk.inj heq
    obtain rfl : r' = .ok () := Option.some.inj (hr.symm.trans hok)
    exact ⟨ht, .refl _ _, trivial⟩

/-- A command that repeats an operation after its success succeeds: it is received, and finds the
result. -/
theorem returns_repetition {w : BridgeWorld} (h : Succeeded command w) :
    (steeringSetting options).Returns (pid, command) 2 (BridgeOptions.steer command) w := by
  refine ⟨Succeeded command, permanent_succeeded.stable, h, fun t _ ht ↦ ?_, ?_⟩
  · exact ⟨{}, _, _, ht.retained, rfl⟩
  · intro t x registration t' ht hs _ ha
    have hregister : BridgeOptions.register pid command t = (registration, t') :=
      Option.some.inj ha
    obtain ⟨o, heq, hok⟩ := @register_of_succeeded pid command t ht hs
    obtain ⟨rfl, rfl⟩ := Prod.mk.inj (heq.symm.trans hregister)
    obtain ⟨o', hread, hcontent, -⟩ := hs
    exact ⟨consistent_repeat ht hread hcontent, advances_repeat, returns_operation hok⟩

end

/-! ## Every run -/

theorem consistent_freshBridge : freshBridge.Consistent where
  short _ h := nomatch h
  apart _ _ _ _ h := nomatch h
  promised _ _ h := nomatch h
  settled _ _ := rfl
  open_or_ok _ _ h := nomatch h
  begun _ _ h := nomatch h
  failed_accepted _ h := nomatch h
  same _ h := nomatch h
  kept _ h := nomatch h
  sent_accepted _ h := nomatch h
  sent_promised _ h := nomatch h
  sent_kept _ h := nomatch h
  once := List.nodup_nil

theorem steering_verified (options : BridgeOptions) :
    (steeringSetting options).Verified freshBridge (fun command _ ↦ Succeeded command)
      fun _ _ _ ↦ True where
  init := consistent_freshBridge
  body _ := meets_steer
  post_stable _ _ := permanent_succeeded.stable
  fail_stable _ _ := stable_true

abbrev BridgeConfig : Type :=
  Config BridgeWorld BridgeEffect BridgeEffect.Answer String Unit SteerCommand

/-- Steering reaches the harness once, in every run. -/
structure SteersOnce (options : BridgeOptions)
    (D : Discipline BridgeWorld BridgeEffect SteerCommand BridgeChoice) : Prop where
  once : ∀ c : BridgeConfig, Reachable options.service D freshBridge c →
    (c.state.sent.map (·.command.operationId)).Nodup
  /-- A command that says something else than one that was accepted does not succeed, and nothing is
  sent for it. -/
  different : ∀ c : BridgeConfig, Reachable options.service D freshBridge c →
    ∀ first ∈ c.state.accepted, ∀ command : SteerCommand,
      command.operationId = first.operationId → command.content ≠ first.content →
        (∀ pid, c.procs pid ≠ some (command, .ret ())) ∧ ∀ s ∈ c.state.sent, s.command ≠ command
  /-- After a success nothing more is sent, and a repetition succeeds: it does not fail, is never
  kept waiting, and returns when it has been answered twice. -/
  repeated : ∀ (c c' : BridgeConfig) pid command, Reachable options.service D freshBridge c →
    c.procs pid = some (command, .ret ()) → Leads options.service D c c' →
      (∀ s ∈ c'.state.sent, s.command.operationId = command.operationId → s ∈ c.state.sent) ∧
      ∀ pid' m, c.procs pid' = none → c'.procs pid' = some (command, m) →
        (∀ error, m ≠ .raise error) ∧ ReturnsWithin options.service D pid' 2 c'

/-- Nothing is sent for an operation that has succeeded. -/
def NoMoreSent (w w' : BridgeWorld) : Prop :=
  ∀ command, Succeeded command w → Succeeded command w' ∧
    ∀ s ∈ w'.sent, s.command.operationId = command.operationId → s ∈ w.sent

theorem noMoreSent_of_advances {pid : ℕ} {w w' : BridgeWorld} (h : w.Advances pid w') :
    NoMoreSent w w' := by
  intro command hsucceeded
  refine ⟨hsucceeded.advances h, fun s hs hid ↦ (h.sent s hs).resolve_right ?_⟩
  rintro ⟨-, o, ho, -, hpending⟩
  obtain ⟨o', ho', -, hok⟩ := hsucceeded
  rw [hid, ho'] at ho
  cases ho
  rw [hok] at hpending
  cases hpending

theorem NoMoreSent.trans {w₁ w₂ w₃ : BridgeWorld} (h : NoMoreSent w₁ w₂) (h' : NoMoreSent w₂ w₃) :
    NoMoreSent w₁ w₃ := by
  intro command hsucceeded
  obtain ⟨hbetween, hsent⟩ := h command hsucceeded
  obtain ⟨hafter, hsent'⟩ := h' command hbetween
  exact ⟨hafter, fun s hs hid ↦ hsent s (hsent' s hs hid) hid⟩

theorem noMoreSent_of_leads {options : BridgeOptions} {c c' : BridgeConfig}
    (hc : Reachable options.service steeringDiscipline freshBridge c)
    (h : Leads options.service steeringDiscipline c c') : NoMoreSent c.state c'.state := by
  have hV := steering_verified options
  refine hV.future NoMoreSent (fun _ _ h ↦ ⟨h, fun _ hs _ ↦ hs⟩) NoMoreSent.trans ?_
    (hV.reachable hc) h
  intro p e x a w w' _ _ _ _ hadvances
  exact noMoreSent_of_advances hadvances

theorem steers_once (options : BridgeOptions) : SteersOnce options steeringDiscipline := by
  have hV := steering_verified options
  refine ⟨fun c hc ↦ (hV.reachable hc).inv.once,
    fun c hc first hfirst command hid hcontent ↦ ⟨fun pid hproc ↦ ?_, ?_⟩,
    fun c c' pid command hc hproc hlead ↦ ?_⟩
  · -- A command with another content would have to be the operation that is remembered.
    have hinv := (hV.reachable hc).inv
    obtain ⟨o, ho, hsame, -⟩ := (hV.reachable hc).safe pid command _ hproc
    exact hcontent (hsame.symm.trans (same_of_remembered hinv ho hfirst hid.symm).symm)
  · rintro s hs rfl
    have hinv := (hV.reachable hc).inv
    exact hcontent (hinv.same _ (hinv.sent_accepted s hs) first hfirst hid)
  · have hsound := hV.reachable hc
    have hsucceeded : Succeeded command c.state := hsound.safe pid command _ hproc
    refine ⟨(noMoreSent_of_leads hc hlead command hsucceeded).2,
      fun pid' m hnone hlater ↦ ?_⟩
    -- The later command began behind the success, from where it is followed to its return.
    obtain ⟨c₀, hbefore, hbody, hafter⟩ := hlead.started hnone hlater
    have hsound₀ := hV.leads hsound hbefore
    have hsucceeded₀ := (noMoreSent_of_leads hc hbefore command hsucceeded).1
    obtain ⟨m', hm', hreturns⟩ :=
      hV.returns_leads hsound₀ hbody (returns_repetition hsucceeded₀) hafter
    rw [hlater] at hm'
    cases hm'
    exact ⟨hreturns.ne_raise, hV.returnsWithin (hV.leads hsound hlead) hlater hreturns⟩

/-! ## Repetitions of a command

A command whose request is answered may be repeated. One whose request times out is repeated
outside of the discipline, for the operation was forgotten with the request.
-/

def sampleSteer : SteerCommand := ⟨"operation", ⟨"hurry", none, "turn"⟩⟩

/-- The request of a command, under a random name. -/
def sampleSending (pid : ℕ) (uuid : String) : List (Event SteerCommand BridgeChoice) :=
  [.start pid sampleSteer, .resume pid {}, .resume pid {},
    .resume pid { harness := { turns := [⟨"turn", "thread", "native", false⟩], uuid := uuid } }]

instance : steeringDiscipline.Checked where
  starts _ _ _ := .isTrue trivial
  answers _ e _ w :=
    match e with
    | .register command =>
      inferInstanceAs (Decidable (w.operations.get? command.operationId = none →
        ∀ f ∈ w.failed, f.command.operationId = command.operationId →
          f.sent = false ∧ f.command.content = command.content))
    | .enter | .execute .. | .response .. | .resolve .. | .reject .. | .operation .. =>
      .isTrue trivial

/-- The command succeeds. -/
def sampleSuccess : List (Event SteerCommand BridgeChoice) :=
  sampleSending 0 "a" ++ [.resume 0 {}, .resume 0 {}]

/-- The command is repeated after its success. -/
theorem sampleSuccess_repeated :
    ∃ c c' : BridgeConfig, ∃ options : BridgeOptions,
      Reachable options.service steeringDiscipline freshBridge c ∧
      Leads options.service steeringDiscipline c c' ∧
      c.outcome 0 = some (sampleSteer, some (.ok ())) ∧ c.state.sent.length = 1 ∧
      c'.procs 1 = some (sampleSteer, BridgeOptions.steer sampleSteer) ∧
      ReturnsWithin options.service steeringDiscipline 1 2 c' := by
  let options : BridgeOptions := ⟨fun _ ↦ none⟩
  have hrun : ((options.service.run steeringDiscipline sampleSuccess (.initial freshBridge)).bind
      fun c ↦ (options.service.run steeringDiscipline ([] ++ [.start 1 sampleSteer]) c).map
        fun _ ↦ (c.outcome 0, (c.outcome 1).isNone, c.state.sent.length)) =
      some (some (sampleSteer, some (.ok ())), true, 1) := by
    decide
  obtain ⟨c, hc, hmap⟩ := Option.bind_eq_some_iff.mp hrun
  obtain ⟨c', hc', hfields⟩ := Option.map_eq_some_iff.mp hmap
  simp only [Prod.mk.injEq, Option.isNone_iff_eq_none] at hfields
  obtain ⟨hfirst, hnone, hsent⟩ := hfields
  have hproc : c'.procs 1 = some (sampleSteer, BridgeOptions.steer sampleSteer) :=
    procs_of_run_start hc'
  have hrepeated := (steers_once options).repeated c c' 0 sampleSteer (leads_of_run hc)
    (Config.procs_of_outcome hfirst) (leads_of_run hc')
  exact ⟨c, c', options, leads_of_run hc, leads_of_run hc', hfirst, hsent, hproc,
    (hrepeated.2 1 _ (Option.map_eq_none_iff.mp hnone) hproc).2⟩

/-- The request times out, and the command is repeated. -/
def sampleTimeout : List (Event SteerCommand BridgeChoice) :=
  sampleSending 0 "a" ++ [.resume 0 { response := .error "Executor protocol request timed out" },
    .resume 0 {}] ++ sampleSending 1 "b"

theorem steered_twice :
    ¬∀ options : BridgeOptions, SteersOnce options Discipline.free := by
  intro h
  let options : BridgeOptions := ⟨fun _ ↦ none⟩
  have hrun : (options.service.run .free sampleTimeout (.initial freshBridge)).map
      (fun c ↦ c.state.sent.map (·.command.operationId)) = some ["operation", "operation"] := by
    decide
  obtain ⟨c, hc, hsent⟩ := Option.map_eq_some_iff.mp hrun
  have honce := (h options).once c (leads_of_run hc)
  rw [hsent] at honce
  exact absurd honce (by decide)

end RatThings
