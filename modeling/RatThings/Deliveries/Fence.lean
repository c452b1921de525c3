import RatThings.Library.RelyGuarantee
import RatThings.Library.VersionedStore

/-!
# Delivering results behind a fence

The result of an execution is sent to its destinations. For each execution and destination the fence
keeps one item: whoever creates it may send, and records the outcome in it. The item of a sender
that disappears expires, and the next caller records that the outcome is unknown.

Only a sender that knows its message was not delivered, and may be sent again, removes the item.

## History

No caller reads the log, which remembers for each item who was granted it, who sent, and what was
recorded.
-/

namespace RatThings

open Concurrent Prog

/-! ## Items -/

inductive DeliveryStatus : Type
  | sending | delivered | notDelivered | outcomeUnknown
deriving DecidableEq, Repr

structure FenceItem where
  status : DeliveryStatus
  /-- In seconds. An item that is not being sent has no lease. -/
  leaseUntil : Option ℕ
deriving DecidableEq, Repr

inductive DeliveryFailure : Type
  | knownNotDelivered (message : String) (retryable : Bool)
  | inProgress (destination : String)
  | error (message : String)
deriving DecidableEq, Repr

def DeliveryFailure.isRetryable : DeliveryFailure → Bool
  | .knownNotDelivered _ retryable => retryable
  | _ => false

/-- What is recorded for a failure that does not allow another send. -/
def DeliveryFailure.status : DeliveryFailure → DeliveryStatus
  | .knownNotDelivered .. => .notDelivered
  | _ => .outcomeUnknown

theorem DeliveryFailure.status_ne_sending (failure : DeliveryFailure) :
    failure.status ≠ .sending := by
  cases failure <;> simp [status]

/-- What became of a send: a receipt, or the failure that the provider reported. -/
abbrev SendOutcome : Type := Except DeliveryFailure String

/-- The message is known not to have been delivered, and may be sent again. -/
def mayResend : SendOutcome → Bool
  | .ok _ => false
  | .error failure => failure.isRetryable

inductive FenceEvent : Type
  | granted (pid : ℕ)
  | expired
  | sent (pid : ℕ) (outcome : SendOutcome)
  | released (pid : ℕ)
  | recorded (pid : ℕ) (status : DeliveryStatus)
deriving DecidableEq

structure FenceWorld where
  table : String → Option FenceItem
  log : String → List FenceEvent

/-! ## Requests -/

inductive FenceEffect : Type
  | now
  /-- Create the item, if there is none. -/
  | put (key : String) (item : FenceItem)
  | get (key : String)
  /-- Give the item up, if it is being sent and its lease has expired. -/
  | expire (key : String) (nowSeconds : ℕ)
  | update (key : String) (status : DeliveryStatus)
  /-- Remove the item, if it is being sent. -/
  | delete (key : String)
  | send (key : String)
  /-- The process has stopped. -/
  | stop
deriving DecidableEq, Repr

abbrev FenceEffect.Answer : FenceEffect → Type
  | .now => ℕ
  | .put .. => Reply
  | .get _ => Option FenceItem
  | .expire .. => Reply
  | .update .. => Reply
  | .delete _ => Reply
  | .send _ => SendOutcome
  | .stop => Empty

structure FenceChoice where
  /-- In milliseconds. -/
  clock : ℕ := 0
  fate : Fate := .acknowledged
  outcome : SendOutcome := .ok "receipt"

namespace FenceWorld

/-- The item changes and the log grows. -/
def record (w : FenceWorld) (key : String) (item : Option FenceItem) (event : FenceEvent) :
    FenceWorld :=
  ⟨Function.update w.table key item, Function.update w.log key (w.log key ++ [event])⟩

@[simp] theorem record_table_self (w : FenceWorld) (key : String) (item : Option FenceItem)
    (event : FenceEvent) : (w.record key item event).table key = item := Function.update_self ..

@[simp] theorem record_log_self (w : FenceWorld) (key : String) (item : Option FenceItem)
    (event : FenceEvent) : (w.record key item event).log key = w.log key ++ [event] :=
  Function.update_self ..

theorem record_table_of_ne (w : FenceWorld) {key key' : String} (item : Option FenceItem)
    (event : FenceEvent) (h : key' ≠ key) : (w.record key item event).table key' = w.table key' :=
  Function.update_of_ne h ..

theorem record_log_of_ne (w : FenceWorld) {key key' : String} (item : Option FenceItem)
    (event : FenceEvent) (h : key' ≠ key) : (w.record key item event).log key' = w.log key' :=
  Function.update_of_ne h ..

def put (w : FenceWorld) (pid : ℕ) (key : String) (item : FenceItem) : Option FenceWorld :=
  match w.table key with
  | none => some (w.record key (some item) (.granted pid))
  | some _ => none

def expire (w : FenceWorld) (key : String) (nowSeconds : ℕ) : Option FenceWorld :=
  match w.table key with
  | some item =>
    if item.status = .sending ∧ (∀ leaseUntil ∈ item.leaseUntil, leaseUntil ≤ nowSeconds) then
      some (w.record key (some ⟨.outcomeUnknown, none⟩) .expired)
    else none
  | none => none

/-- An update names no condition, and creates an item that is missing. -/
def update (w : FenceWorld) (pid : ℕ) (key : String) (status : DeliveryStatus) : FenceWorld :=
  w.record key (some ⟨status, none⟩) (.recorded pid status)

def delete (w : FenceWorld) (pid : ℕ) (key : String) : Option FenceWorld :=
  match w.table key with
  | some item => if item.status = .sending then some (w.record key none (.released pid)) else none
  | none => none

def send (w : FenceWorld) (pid : ℕ) (key : String) (outcome : SendOutcome) : FenceWorld :=
  w.record key (w.table key) (.sent pid outcome)

end FenceWorld

def handleFence (pid : ℕ) : (e : FenceEffect) → FenceChoice → FenceWorld →
    Option (e.Answer × FenceWorld)
  | .now, x, w => some (x.clock, w)
  | .put key item, x, w => some (x.fate.settle (w.put pid key item) w)
  | .get key, _, w => some (w.table key, w)
  | .expire key nowSeconds, x, w => some (x.fate.settle (w.expire key nowSeconds) w)
  | .update key status, x, w => some (x.fate.settle (some (w.update pid key status)) w)
  | .delete key, x, w => some (x.fate.settle (w.delete pid key) w)
  | .send key, x, w => some (x.outcome, w.send pid key x.outcome)
  | .stop, _, _ => none

abbrev DeliveryProg : Type → Type := Prog FenceEffect FenceEffect.Answer DeliveryFailure

/-! ## The fence -/

structure DeliveryFence where
  /-- The first 24 digits of a digest. -/
  digest : String → String
  leaseSeconds : ℕ := 120

namespace DeliveryFence

variable (fence : DeliveryFence)

def deliveryKey (runId destination : String) : String :=
  "delivery#" ++ runId ++ "#" ++ fence.digest destination

def connectionLost : DeliveryFailure := .error "connection lost"

def conditionalFailure : DeliveryFailure := .error "The conditional request failed"

/-- Whether the caller may send. The item may be gone by the time it is read, and then the claim
starts over; `patience` bounds how often the process lives to see that. -/
def claim (runId destination : String) : ℕ → DeliveryProg Bool
  | 0 => do
    let never ← perform FenceEffect.stop
    nomatch never
  | patience + 1 => do
    let key := fence.deliveryKey runId destination
    let now ← perform FenceEffect.now
    match ← perform (FenceEffect.put key
      ⟨.sending, some (now / 1000 + fence.leaseSeconds)⟩) with
    | .done => pure true
    | .unknown => throw connectionLost
    | .conflict =>
      match ← perform (FenceEffect.get key) with
      | none => claim runId destination patience
      | some existing =>
        if existing.status ≠ .sending then pure false
        else
          let nowSeconds := now / 1000
          if existing.leaseUntil.any (nowSeconds < ·) then throw (.inProgress destination)
          else
            -- A crashed sender may already have posted.
            match ← perform (FenceEffect.expire key nowSeconds) with
            | .done => pure false
            | .conflict => throw (.inProgress destination)
            | .unknown => throw connectionLost

def update (runId destination : String) (status : DeliveryStatus) : DeliveryProg Unit := do
  match ← perform (FenceEffect.update (fence.deliveryKey runId destination) status) with
  | .done => pure ()
  | .conflict => throw conditionalFailure
  | .unknown => throw connectionLost

def delivered (runId destination : String) : DeliveryProg Unit :=
  fence.update runId destination .delivered

def failed (runId destination : String) (failure : DeliveryFailure) : DeliveryProg Unit :=
  fence.update runId destination failure.status

def release (runId destination : String) : DeliveryProg Unit := do
  match ← perform (FenceEffect.delete (fence.deliveryKey runId destination)) with
  | .done => pure ()
  | .conflict => throw conditionalFailure
  | .unknown => throw connectionLost

/-! ## Delivering -/

/-- Send, and record the outcome. A failure that allows another attempt is returned. -/
def deliverClaimed (runId destination : String) : DeliveryProg (Option DeliveryFailure) :=
  tryCatch
    (do
      let _ ← Prog.ofExcept (← perform (FenceEffect.send (fence.deliveryKey runId destination)))
      fence.delivered runId destination
      pure none)
    fun failure ↦
      if failure.isRetryable then do
        fence.release runId destination
        pure (some failure)
      else do
        fence.failed runId destination failure
        pure none

/-- Deliver to each destination in turn; the first failure is raised at the end. -/
def deliverAll (runId : String) (patience : ℕ) : List String → List DeliveryFailure →
    DeliveryProg Unit
  | [], [] => pure ()
  | [], failure :: _ => throw failure
  | destination :: rest, failures => do
    let claimed ← fence.claim runId destination patience
    if !claimed then deliverAll runId patience rest failures
    else do
      let failure ← fence.deliverClaimed runId destination
      deliverAll runId patience rest (failures ++ failure.toList)

structure Call where
  runId : String
  /-- The keys of the destinations the request resolves to. -/
  destinations : List String
  patience : ℕ
deriving DecidableEq, Repr

def deliver (call : Call) : DeliveryProg Unit :=
  fence.deliverAll call.runId call.patience call.destinations []

def service : Service FenceWorld FenceEffect FenceEffect.Answer DeliveryFailure Unit Call
    FenceChoice := ⟨fence.deliver, handleFence⟩

end DeliveryFence

end RatThings
