import RatThings.Library.RelyGuarantee
import RatThings.Library.VersionedStore
import RatThings.Sessions.Planning

/-!
# The requests of a Session's callers

All callers of a Session share its one document and replace it whole, by compare-and-swap on its
revision. Whatever else they do (observe a Turn, hand a command to the execution, take new ids)
leaves the document alone.

## History

The world keeps two things no caller reads. The log records the requests that were admitted, in
the order of their commits. The issued ids are those given out so far: ids are random, and what the
proofs use of that is that no id is given out twice.
-/

namespace RatThings

open Concurrent

def idempotencyError : AgentsApiError :=
  ⟨409, "This Idempotency-Key was used with different events.", some "idempotency_conflict", none⟩

/-! ## The world -/

/-- A request that was admitted, under the key of its receipt. -/
structure Admission where
  key : String
  events : List SessionInput
  accepted : List Accepted
deriving DecidableEq, Repr

structure SessionWorld where
  record : Slot SessionState
  /-- The Turn ids given out so far. -/
  turnIds : List String
  messageIds : List String
  /-- The admitted requests, in the order of their commits. -/
  log : List Admission

/-- Which of its writes a caller is making. -/
inductive WritePurpose : Type
  | accept (admission : Admission)
  | update
  | complete (turnId : String)
  | settleStart (turnId : String)
  | failStart (turnId : String)
  | acknowledge (key : String)
  | recover (unadmitted : List String)
deriving DecidableEq, Repr

/-! ## Requests -/

/-- What the execution is asked to do. -/
inductive ExecutionRequest : Type
  | initializeExecution
  | start (turnId : String) (input : List SessionMessage)
  | steer (turnId : String) (input : List InputMessage) (operationId : String)
  | cancel (turnId : String)
  | toolResult (event : ToolResultInput)
deriving DecidableEq, Repr

/-- What is kept of a Turn that has ended. -/
structure SavedTurn where
  items : List String
  artifacts : List String
  traceSteps : List String
deriving DecidableEq, Repr

inductive SessionEffect : Type
  | get
  /-- Replace the document that was read. -/
  | replace (resource : Versioned SessionState) (value : SessionState) (purpose : WritePurpose)
  | now
  /-- New ids for Turns, messages and operations; there are as many operations as Turns. -/
  | nextIds (turns messages : ℕ)
  | observe (turn : Turn)
  | subagents
  /-- Whether the execution environment has failed. -/
  | environmentFailed
  /-- The last item shown for each Turn. -/
  | itemAnchors
  | admitInput (key : String) (messages : ℕ)
  | execute (request : ExecutionRequest)
  | saved (turnId : String)
  /-- Repair the Pi runtime. The Turns it had admitted, when its recovery is exhausted. -/
  | repair
deriving DecidableEq, Repr

abbrev SessionEffect.Answer : SessionEffect → Type
  | .get => Slot SessionState
  | .replace .. => Reply
  | .now => ℕ
  | .nextIds .. => List String × List String × List String
  | .observe _ => Except ServiceFailure SessionTurnObservation
  | .subagents => Except ServiceFailure (List SessionSubagentSnapshot)
  | .environmentFailed => Except ServiceFailure Bool
  | .itemAnchors => Except ServiceFailure (List (String × String))
  | .admitInput .. => Except ServiceFailure Unit
  | .execute _ => Except ServiceFailure Unit
  | .saved _ => Except ServiceFailure SavedTurn
  | .repair => Except ServiceFailure (Option (List String))

abbrev SessionProg := Prog SessionEffect SessionEffect.Answer ServiceFailure

/-! ## Answers -/

/-- How far a Turn has come. -/
structure TurnProgress where
  status : TurnStatus
  startedAt : Option ℕ
  completedAt : Option ℕ
  error : Option TurnError
deriving DecidableEq, Repr

def Turn.at (turn : Turn) (progress : TurnProgress) : Turn :=
  { turn with
    status := progress.status
    startedAt := progress.startedAt
    completedAt := progress.completedAt
    error := progress.error }

/-- What the environment decides about one answer. Each request reads the fields it needs. -/
structure SessionChoice where
  fate : Fate := .acknowledged
  fault : Option ServiceFailure := none
  clock : ℕ := 0
  turnIds : List String := []
  messageIds : List String := []
  operationIds : List String := []
  progress : TurnProgress := ⟨.queued, none, none, none⟩
  requiredActions : List RequiredAction := []
  subagents : List SessionSubagentSnapshot := []
  environmentFailed : Bool := false
  anchors : List (String × String) := []
  saved : SavedTurn := ⟨[], [], []⟩
  exhausted : Option (List String) := none

def SessionChoice.attempt {α : Type} (x : SessionChoice) (a : α) : Except ServiceFailure α :=
  match x.fault with
  | none => .ok a
  | some failure => .error failure

/-- The ids are as many as asked for, and none of them was given out before. -/
def FreshIds (count : ℕ) (ids issued : List String) : Prop :=
  ids.length = count ∧ ids.Nodup ∧ ∀ id ∈ ids, id ∉ issued

instance (count : ℕ) (ids issued : List String) :
    Decidable (FreshIds count ids issued) :=
  inferInstanceAs (Decidable (_ ∧ _ ∧ _))

/-- What a successful replacement adds to the log. -/
def WritePurpose.admissions : WritePurpose → List Admission
  | .accept admission => [admission]
  | _ => []

/-- The world after a replacement; `none` when the revision has moved. -/
def SessionWorld.replace (w : SessionWorld) (resource : Versioned SessionState)
    (value : SessionState) (purpose : WritePurpose) : Option SessionWorld :=
  (w.record.put resource.revision value).map fun record ↦
    { w with record, log := w.log ++ purpose.admissions }

def handleSession (_pid : ℕ) :
    (e : SessionEffect) → SessionChoice → SessionWorld → Option (e.Answer × SessionWorld)
  | .get, _, w => some (w.record, w)
  | .replace resource value purpose, x, w =>
    some (x.fate.settle (w.replace resource value purpose) w)
  | .now, x, w => some (x.clock, w)
  | .nextIds turns messages, x, w =>
    if FreshIds turns x.turnIds w.turnIds ∧ FreshIds messages x.messageIds w.messageIds then
      some ((x.turnIds, x.messageIds, x.operationIds),
        { w with
          turnIds := w.turnIds ++ x.turnIds
          messageIds := w.messageIds ++ x.messageIds })
    else none
  | .observe turn, x, w => some (x.attempt ⟨turn.at x.progress, x.requiredActions⟩, w)
  | .subagents, x, w => some (x.attempt x.subagents, w)
  | .environmentFailed, x, w => some (x.attempt x.environmentFailed, w)
  | .itemAnchors, x, w => some (x.attempt x.anchors, w)
  | .admitInput .., x, w => some (x.attempt (), w)
  | .execute _, x, w => some (x.attempt (), w)
  | .saved _, x, w => some (x.attempt x.saved, w)
  | .repair, x, w => some (x.attempt x.exhausted, w)

end RatThings
