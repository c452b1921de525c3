import Mathlib.Data.Nat.Notation

/-!
# The runtime record of a Session

One record of a Session says which Run its harness is, and fences the ones before it. It is claimed
for a Run, and closed with the Session; either moves the epoch on, so that a lease on the record,
which is a Run with an epoch, is lost when another Run claims it or the Session is closed.

The services that write the record look at different parts of it. Those that commit native history
go by its head and by the ids it has handed out (`N`), and keep a snapshot (`S`) for others to show;
those that replace workers go by the attempts, and by the Turns of the snapshot. A claim and a
closure leave both as they are, so that they are planned for any `N` and `S`.
-/

namespace RatThings

inductive AttemptPhase : Type
  | reserved | submitting
deriving DecidableEq, Repr

structure RuntimeAttempt where
  phase : Option AttemptPhase
  ordinal : ℕ
  turnId : String
  failures : List ℕ
  dueAt : ℕ
deriving DecidableEq, Repr

structure StoredSessionRuntime (N S : Type) where
  runId : Option String
  closed : Bool
  epoch : Option ℕ
  native : Option N
  snapshot : Option S
  projectionSeq : Option ℕ
  attempt : Option RuntimeAttempt
  recoveryExhausted : Bool
deriving DecidableEq, Repr

namespace SessionRuntimeStore

variable {N S : Type}

/-- The record where there was none before. -/
def noRuntime : StoredSessionRuntime N S :=
  ⟨none, false, none, none, none, none, none, false⟩

/-- The record after a claim. -/
def planClaim (runId : String) (attempt : Option RuntimeAttempt)
    (previous : Option (StoredSessionRuntime N S)) : StoredSessionRuntime N S :=
  let value := previous.getD noRuntime
  { value with
    runId := some runId
    closed := false
    attempt := attempt <|> value.attempt
    recoveryExhausted := if attempt.isSome then false else value.recoveryExhausted
    epoch := some ((value.epoch.map (· + 1)).getD 0) }

/-- The record after a closure. It is kept even before the first claim. -/
def planRuntimeClosure (current : Option (StoredSessionRuntime N S)) : StoredSessionRuntime N S :=
  let value := current.getD noRuntime
  { value with closed := true, epoch := some (value.epoch.getD 0 + 1) }

end SessionRuntimeStore

end RatThings
