import Mathlib.Algebra.GroupWithZero.Nat
import Std.Data.String.ToNat
import RatThings.Agents.Errors
import RatThings.Agents.SessionRuntime
import RatThings.Library.Digest
import RatThings.Library.RelyGuarantee
import RatThings.Library.VersionedStore

/-!
# Workers of a Pi Session

A Pi Session is executed by a worker, which is a Run. When a worker has stopped, another one takes
its place. The runtime record of the Session says which Run is current: a caller that wants to
replace it writes the id of the next one into the record, marks it as being submitted, and submits.
Every step may be the last one that a caller makes, and several callers may be at it.

## The construction

The calls are those that start a Turn, steer and cancel it, recover a worker that may have ended,
and close the runtime; beside them the workers publish, advance and stop. A caller starts with
the record as it reads it, so what it decides may be overtaken before it is written: the
compare-and-swap is refused then. Submitting is no write of the record. It is repeated under the
key of the attempt, and a Run is not created twice under one key.

Recovery decides by the failures of the last ten minutes, and by what is known of the worker: that
there is none, that it is at work, or that it has stopped. Nothing may be known, and then it waits.

The runtime record and the Runs are those of one Session. The record of the Session itself belongs
to another service, so reading it asks the world. It is deleted only after the runtime was closed.

## Ghosts

The world keeps the keys of the Runs it has created, in their order, and the ids of the Runs that a
stored record has named with an attempt marked as submitting.
-/

namespace RatThings

open Concurrent Prog

/-! ## Records -/

/-- The runtime record, of which workers go by all but the native history. The Turns of a snapshot
are kept with whether they have ended. -/
abbrev StoredPiRuntime : Type := StoredSessionRuntime Unit (List (String × Bool))

/-- What a Pi Session says of its Turns: each, and whether it has ended. -/
structure PiSessionState where
  closing : Bool
  turns : List (String × Bool)
deriving DecidableEq, Repr

inductive PiRunStatus : Type
  | queued | running | terminal
deriving DecidableEq, Repr

/-- A Run that executes may have a generation. -/
structure PiRun where
  status : PiRunStatus
  execution : Option (Option String)
  turnId : String
deriving DecidableEq, Repr

def PiRun.generation (run : PiRun) : Option String := run.execution.join

/-! ## Requests -/

inductive PiEffect : Type
  | readSession
  | getRuntime
  | putRuntime (expected : ℕ) (value : StoredPiRuntime)
  /-- The Turns are failed in the Session's record by the same commit. -/
  | commitRuntime (expected : ℕ) (value : StoredPiRuntime) (failedTurns : List String)
  | getRun (id : String)
  | sourceStopped (id generation : String)
  | checkInputConnection (turnId : String)
  | eventsReady (id : String)
  | startSessionTurn (id turnId : String)
  | prepareLaunch (turnId runKey : String) (bootstrap : Bool)
  | attachManaged (id : String)
  | submit (runKey turnId : String)
  | steer (id turnId : String)
  | interrupt (id turnId : String)
  | cancelRun (id : String)
  | retireEnvironment
  | closeTools
  | repairPi
  | abortPi
  | now
  /-- A Run goes on by itself. -/
  | advanceRun (id : String) (run : PiRun)
  /-- A generation of a Run stops for good. -/
  | stopRun (id generation : String)
deriving DecidableEq, Repr

abbrev PiEffect.Answer : PiEffect → Type
  | .readSession => Option PiSessionState
  | .getRuntime => Slot StoredPiRuntime
  | .putRuntime .. => Reply
  | .commitRuntime .. => Reply
  | .getRun _ => Except ServiceFailure (Option PiRun)
  | .sourceStopped .. => Except ServiceFailure Bool
  | .eventsReady _ => Except ServiceFailure Bool
  | .repairPi => Except ServiceFailure (Option Bool)
  | .now => ℕ
  | .advanceRun .. => Unit
  | .stopRun .. => Unit
  | _ => Except ServiceFailure Unit

abbrev PiProg : Type → Type := Prog PiEffect PiEffect.Answer ServiceFailure

def unavailable (message : String) : ServiceFailure :=
  .api ⟨503, message, some "service_unavailable", none⟩

/-! ## Planning -/

inductive PiWorkerSight : Type
  | active | stopped | unknown | absent
deriving DecidableEq, Repr

structure PiRecoveryFacts where
  closed : Bool
  hasWork : Bool
  worker : PiWorkerSight
  now : ℕ
  failures : List ℕ

inductive PiRecoveryDecision : Type
  | idle | wait | exhausted
  | replace (failures : List ℕ) (delaySeconds : ℕ)
deriving DecidableEq, Repr

/-- Failures count for ten minutes. -/
def planPiRecovery (facts : PiRecoveryFacts) : PiRecoveryDecision :=
  if facts.closed ∨ facts.hasWork = false then .idle
  else if facts.worker = .active ∨ facts.worker = .unknown then .wait
  else
    let failures := facts.failures.filter fun time ↦ facts.now < time + 600
    if 3 ≤ failures.length then .exhausted
    else
      .replace (failures ++ [facts.now]) (if facts.worker = .absent then 0 else 2 ^ failures.length)

/-- The Turn is finished, as far as the snapshot or else the Session says. -/
def turnEnded (snapshot : Option (List (String × Bool))) (turn : String × Bool) : Bool :=
  (snapshot.bind fun turns ↦ turns.lookup turn.1).getD turn.2

namespace RunSessionExecution

def ask (e : PiEffect) : PiProg e.Answer := perform e

def tried {α : Type} (m : PiProg (Except ServiceFailure α)) : PiProg α := do
  let r ← m
  Prog.ofExcept r

def stored (m : PiProg Reply) : PiProg Unit := do
  match ← m with
  | .done => pure ()
  | .conflict => throw (.api conflictError)
  | .unknown => throw (.error "connection lost")

variable (sessionId : String)

/-! ## Names of Runs -/

def attemptKey (ordinal : ℕ) : String := "agents:" ++ sessionId ++ ":attempt:" ++ toString ordinal

def turnKey (turnId : String) : String := "agents:" ++ digest (sessionId, turnId)

@[irreducible] def idFor (runKey : String) : String := digest runKey

/-- Keys have different ids. -/
theorem idFor_injective : Function.Injective idFor := by
  unfold idFor
  exact digest_injective

def currentRunId (runtime : Slot StoredPiRuntime) : Option String :=
  runtime.bind (·.value.runId)

def ordinalOf (runtime : Slot StoredPiRuntime) : ℕ :=
  ((runtime.bind (·.value.attempt)).map (·.ordinal)).getD 0

def phaseOf (runtime : Slot StoredPiRuntime) : Option AttemptPhase :=
  (runtime.bind (·.value.attempt)).bind (·.phase)

/-- The Run of a record, if there is one. -/
def runOf (id : Option String) : PiProg (Option PiRun) :=
  match id with
  | none => pure none
  | some id => tried (ask (.getRun id))

/-! ## Starting -/

/-- A new Turn for a worker that is at work. -/
def continueTurn (id : String) (run : PiRun) (turnId : String) : PiProg Unit := do
  if run.turnId = turnId then pure ()
  else if run.status ≠ .running ∨ run.execution = none then
    throw (unavailable "The session harness is not ready for input.")
  else do
    let () ← tried (ask (.checkInputConnection turnId))
    if ← tried (ask (.eventsReady id)) then tried (ask (.startSessionTurn id turnId))
    else throw (unavailable "The session harness is not ready for input.")

def claim (previous : Slot StoredPiRuntime) (runId : String) (attempt : Option RuntimeAttempt) :
    PiProg Unit :=
  if previous.any (·.value.closed) then
    throw (.api ⟨409, "The session harness has been closed.", some "conflict", none⟩)
  else
    stored (ask (.putRuntime previous.revision
      (SessionRuntimeStore.planClaim runId attempt (previous.map (·.value)))))

/-- The attempt with which the next worker is reserved. -/
def reservation (runtime : Slot StoredPiRuntime) (ordinal : ℕ) (turnId : String) :
    RuntimeAttempt where
  phase := some .reserved
  ordinal := ordinal
  turnId := turnId
  failures := ((runtime.bind (·.value.attempt)).filter (·.turnId == turnId)).elim [] (·.failures)
  dueAt := 0

/-- The caller still owns the attempt, and is about to submit it. -/
def markSubmitting (runId : String) : PiProg Unit := do
  match ← ask .getRuntime with
  | none => throw (.api ⟨409, "Pi ownership changed.", some "conflict", none⟩)
  | some claimed =>
    match claimed.value.attempt with
    | none => throw (.api ⟨409, "Pi ownership changed.", some "conflict", none⟩)
    | some attempt =>
      if claimed.value.closed = true ∨ claimed.value.runId ≠ some runId then
        throw (.api ⟨409, "Pi ownership changed.", some "conflict", none⟩)
      else
        stored (ask (.putRuntime claimed.revision
          { claimed.value with
            attempt := some { attempt with phase := some .submitting } }))

/-- The Run is claimed, unless the record names it already. -/
def reserve (pi : Bool) (runtime : Slot StoredPiRuntime) (ordinal : ℕ) (runId turnId : String) :
    PiProg Unit :=
  if currentRunId runtime = some runId then pure ()
  else claim runtime runId (if pi then some (reservation runtime ordinal turnId) else none)

def attachManaged (hosted : Bool) (runId : String) : PiProg Unit :=
  if hosted then tried (ask (.attachManaged runId)) else pure ()

/-- Claim the Run of this key, and submit it. -/
def launch (pi bootstrap hosted : Bool) (runtime : Slot StoredPiRuntime) (ordinal : ℕ)
    (runKey turnId : String) : PiProg Unit := do
  tried (ask (.prepareLaunch turnId runKey bootstrap))
  reserve pi runtime ordinal (idFor runKey) turnId
  attachManaged hosted (idFor runKey)
  if pi then markSubmitting (idFor runKey)
  tried (ask (.submit runKey turnId))

/-- The worker before this one has stopped. -/
def requireStopped (id : Option String) (run : PiRun) : PiProg Unit := do
  match run.generation with
  | none => throw (unavailable "Waiting for the previous Pi worker to stop.")
  | some generation =>
    if ← tried (ask (.sourceStopped (id.getD "") generation)) then pure ()
    else throw (unavailable "Waiting for the previous Pi worker to stop.")

/-- Launch a Run in the place of one that has ended, or the first one. -/
def replaceRun (pi bootstrap hosted : Bool) (runtime : Slot StoredPiRuntime)
    (ended : Option PiRun) (turnId : String) : PiProg Unit := do
  match pi, ended with
  | false, _ =>
    launch pi bootstrap hosted runtime 0 (turnKey sessionId turnId) turnId
  | true, none =>
    if runtime.isSome ∧ phaseOf runtime ≠ some .reserved then
      throw (unavailable "Previous Pi worker termination cannot be verified.")
    else
      let ordinal := ordinalOf runtime
      launch pi bootstrap hosted runtime ordinal (attemptKey sessionId ordinal) turnId
  | true, some run => do
    let () ← requireStopped (currentRunId runtime) run
    let ordinal := ordinalOf runtime + 1
    launch pi bootstrap hosted runtime ordinal (attemptKey sessionId ordinal) turnId

def start (turnId : String) (hosted bootstrap : Bool) : PiProg Unit := do
  let state ← ask .readSession
  let runtime ← ask .getRuntime
  if state.isNone ∧ ((runtime.bind (·.value.snapshot)).any fun turns ↦ (turns.lookup turnId).isSome)
  then pure ()
  else if runtime.any (·.value.closed) then pure ()
  else do
    let activeRun ← runOf (currentRunId runtime)
    match activeRun.filter (·.status ≠ .terminal) with
    | some run => continueTurn ((currentRunId runtime).getD "") run turnId
    | none => replaceRun sessionId state.isSome bootstrap hosted runtime activeRun turnId

def initializeSession (hosted : Bool) : PiProg Unit :=
  if hosted = false then pure ()
  else do
    match ← ask .getRuntime with
    | none => start sessionId "bootstrap" hosted true
    | some runtime =>
      if runtime.value.closed then pure ()
      else do
        let run ← runOf runtime.value.runId
        if run.isSome then pure () else start sessionId "bootstrap" hosted true

/-! ## Recovery -/

/-- What is known of the worker. -/
def sightOf (runtime : Versioned StoredPiRuntime) (run : Option PiRun) : PiProg PiWorkerSight :=
  match run with
  | none => pure (if phaseOf (some runtime) = some .reserved then .absent else .unknown)
  | some run =>
    match run.generation with
    | none => pure .unknown
    | some generation => do
      let stopped ← tried (ask (.sourceStopped (runtime.value.runId.getD "") generation))
      pure (if stopped then .stopped else .unknown)

/-- Recovery has ended: what was not admitted fails. -/
def exhaust (runtime : Versioned StoredPiRuntime) : PiProg Unit := do
  let () ← tried (ask .abortPi)
  match ← ask .getRuntime with
  | none => pure ()
  | some settled =>
    if settled.value.closed = true ∨ settled.value.runId ≠ runtime.value.runId then pure ()
    else do
      match ← ask .readSession with
      | none => pure ()
      | some state =>
        if state.closing then pure ()
        else
          let admitted := (settled.value.snapshot.getD []).map (·.1)
          let unadmitted := (state.turns.filter fun turn ↦ turn.2 = false ∧
            turn.1 ∉ admitted).map (·.1)
          stored (ask (.commitRuntime settled.revision
            { settled.value with recoveryExhausted := true } unadmitted))

/-- Replace the worker when it is due. -/
def replaceWhenDue (hosted : Bool) (runtime : Versioned StoredPiRuntime) (turnId : String)
    (failures : List ℕ) (delaySeconds now : ℕ) : PiProg Unit := do
  let attempt := runtime.value.attempt
  let dueAt := (attempt.map (·.dueAt)).getD 0
  if dueAt = 0 then do
    let () ← stored (ask (.putRuntime runtime.revision
      { runtime.value with
        attempt := some ⟨attempt.bind (·.phase), (attempt.map (·.ordinal)).getD 0, turnId, failures,
          now + delaySeconds⟩ }))
    throw (unavailable "Pi worker replacement is scheduled.")
  else if now < dueAt then throw (unavailable "Pi worker replacement is scheduled.")
  else start sessionId turnId hosted false

def recover (hosted : Bool) (state : PiSessionState) (runtime : Versioned StoredPiRuntime)
    (decision : PiRecoveryDecision) (now : ℕ) : PiProg Unit :=
  let saved := (runtime.value.attempt.map (·.failures)).getD []
  let dueAt := (runtime.value.attempt.map (·.dueAt)).getD 0
  let next := (state.turns.find? fun turn ↦ turnEnded runtime.value.snapshot turn = false) <|>
    state.turns.getLast?
  match decision with
  | .idle => pure ()
  | .wait => throw (unavailable "Waiting for verified Pi worker termination.")
  | .exhausted =>
    if dueAt = 0 then exhaust runtime
    else next.elim (pure ()) fun turn ↦ replaceWhenDue sessionId hosted runtime turn.1 saved 0 now
  | .replace failures delaySeconds =>
    next.elim (pure ()) fun turn ↦
      replaceWhenDue sessionId hosted runtime turn.1 failures delaySeconds now

/-- Recovery of a worker that may have ended. -/
def reconcileRun (hosted : Bool) (state : PiSessionState) (native : Option Bool)
    (runtime : Versioned StoredPiRuntime) : PiProg Unit := do
  let run ← runOf runtime.value.runId
  if run.any (·.status ≠ .terminal) then pure ()
  else do
    let hasWork := (state.turns.any fun turn ↦ !turnEnded runtime.value.snapshot turn) ||
      native == some true
    let now ← ask .now
    let worker ← sightOf runtime run
    recover sessionId hosted state runtime
      (planPiRecovery ⟨false, hasWork, worker, now,
        (runtime.value.attempt.map (·.failures)).getD []⟩) now

def reconcile (hosted : Bool) : PiProg Unit := do
  match ← ask .readSession with
  | none => pure ()
  | some state =>
    if state.closing then pure ()
    else do
      let native ← tried (ask .repairPi)
      match ← ask .getRuntime with
      | none => pure ()
      | some runtime =>
        if runtime.value.closed = true ∨ runtime.value.recoveryExhausted = true then pure ()
        else reconcileRun sessionId hosted state native runtime

/-! ## Input for a worker -/

/-- The id of the Run that a Turn belongs to, and the Run. -/
def runFor (turnId : String) : PiProg (String × Option PiRun) := do
  let runtime ← ask .getRuntime
  let id := (currentRunId runtime).getD (idFor (turnKey sessionId turnId))
  let run ← tried (ask (.getRun id))
  pure (id, run)

def recovering (hosted : Bool) : PiProg Unit := do
  reconcile sessionId hosted
  throw (unavailable "Pi worker recovery is pending.")

def steer (hosted : Bool) (turnId : String) : PiProg Unit := do
  let found ← runFor sessionId turnId
  match found.2 with
  | none => throw (.api notFoundError)
  | some run =>
    if run.status = .terminal then do
      let state ← ask .readSession
      if state.isSome then recovering sessionId hosted
      else throw (.api ⟨409, "The active turn ended before it could be steered.",
        some "active_turn_not_steerable", none⟩)
    else if run.execution = none ∨ run.status ≠ .running then
      throw (unavailable "The turn is not ready for input yet.")
    else tried (ask (.steer found.1 turnId))

def cancel (hosted : Bool) (turnId : String) : PiProg Unit := do
  let found ← runFor sessionId turnId
  let state ← ask .readSession
  if state.isSome ∧ found.2.all (·.status ≠ .running) then recovering sessionId hosted
  else
    match found.2 with
    | none => pure ()
    | some run =>
      if run.status = .terminal then pure ()
      else if run.status = .running ∧ run.execution.isSome then
        tried (ask (.interrupt found.1 turnId))
      else tried (ask (.cancelRun found.1))

/-! ## Closing -/

/-- The runtime is closed, as long as its writers let it. -/
def closeRuntime : ℕ → PiProg (Option String)
  | 0 => throw (.api ⟨409, "The session harness changed concurrently.", some "conflict", none⟩)
  | attempts + 1 => do
    let current ← ask .getRuntime
    if current.any (·.value.closed) then pure (currentRunId current)
    else do
      match ← ask (.putRuntime current.revision
        (SessionRuntimeStore.planRuntimeClosure (current.map (·.value)))) with
      | .done => pure (currentRunId current)
      | .conflict => if attempts = 0 then throw (.api conflictError) else closeRuntime attempts
      | .unknown => throw (.error "connection lost")

def cancelWorker (id : Option String) : PiProg Unit := do
  let run ← runOf id
  if run.any (·.status ≠ .terminal) then tried (ask (.cancelRun (id.getD ""))) else pure ()

def retireEnvironment (environment : Bool) : PiProg Unit :=
  if environment then tried (ask .retireEnvironment) else pure ()

def close (environment : Bool) : PiProg Unit := do
  let id ← closeRuntime 10
  cancelWorker id
  retireEnvironment environment
  tried (ask .closeTools)

/-- A worker publishes its progress. -/
def publish (runId : String) (snapshot : List (String × Bool)) : PiProg Unit := do
  match ← ask .getRuntime with
  | none => pure ()
  | some current =>
    if current.value.closed = true ∨ current.value.runId ≠ some runId then pure ()
    else
      stored (ask (.putRuntime current.revision { current.value with snapshot := some snapshot }))

end RunSessionExecution

/-! ## Calls -/

inductive PiCall : Type
  | start (turnId : String) (hosted : Bool)
  | initializeSession (hosted : Bool)
  | reconcile (hosted : Bool)
  | steer (hosted : Bool) (turnId : String)
  | cancel (hosted : Bool) (turnId : String)
  | close (environment : Bool)
  | publish (runId : String) (snapshot : List (String × Bool))
  | advanceRun (id : String) (run : PiRun)
  | stopRun (id generation : String)
deriving DecidableEq, Repr

open RunSessionExecution in
def piBody (sessionId : String) : PiCall → PiProg Unit
  | .start turnId hosted => start sessionId turnId hosted false
  | .initializeSession hosted => initializeSession sessionId hosted
  | .reconcile hosted => RunSessionExecution.reconcile sessionId hosted
  | .steer hosted turnId => steer sessionId hosted turnId
  | .cancel hosted turnId => RunSessionExecution.cancel sessionId hosted turnId
  | .close environment => close environment
  | .publish runId snapshot => publish runId snapshot
  | .advanceRun id run => ask (.advanceRun id run)
  | .stopRun id generation => ask (.stopRun id generation)

/-! ## The world -/

structure PiWorld where
  runtime : Slot StoredPiRuntime
  runs : String → Option PiRun
  /-- The generations that have stopped for good. -/
  stopped : List (String × String)
  /-- The keys of the Runs, in the order of their creation. -/
  created : List String
  /-- The Runs that a record has named with an attempt marked as submitting. -/
  named : List String

def PiWorld.fresh : PiWorld := ⟨none, fun _ ↦ none, [], [], []⟩

/-- What the environment decides about one answer. -/
structure PiChoice where
  fate : Fate := .acknowledged
  failure : Option ServiceFailure := none
  session : Option PiSessionState := some ⟨false, []⟩
  /-- The record of a Run expires after a while. -/
  hidden : Bool := false
  flag : Bool := true
  native : Option Bool := none
  now : ℕ := 0
deriving DecidableEq, Repr

def PiChoice.result {α : Type} (x : PiChoice) (a : α) : Except ServiceFailure α :=
  match x.failure with
  | some failure => .error failure
  | none => .ok a

namespace PiWorld

variable (w : PiWorld)

/-- The Run that a record names for submission. -/
def namedBy (value : StoredPiRuntime) : List String :=
  if value.attempt.bind (·.phase) = some .submitting then value.runId.toList else []

def putRuntime (expected : ℕ) (value : StoredPiRuntime) : Option PiWorld :=
  (w.runtime.put expected value).map fun runtime ↦
    { w with
      runtime := runtime
      named := w.named ++ namedBy value }

def create (runKey turnId : String) : PiWorld :=
  { w with
    runs := Function.update w.runs (RunSessionExecution.idFor runKey) (some ⟨.queued, none, turnId⟩)
    created := w.created ++ [runKey] }

@[simp] theorem runtime_create (runKey turnId : String) :
    (w.create runKey turnId).runtime = w.runtime := rfl

@[simp] theorem named_create (runKey turnId : String) :
    (w.create runKey turnId).named = w.named := rfl

@[simp] theorem stopped_create (runKey turnId : String) :
    (w.create runKey turnId).stopped = w.stopped := rfl

@[simp] theorem created_create (runKey turnId : String) :
    (w.create runKey turnId).created = w.created ++ [runKey] := rfl

theorem length_create (runKey turnId : String) :
    (w.create runKey turnId).created.length = w.created.length + 1 :=
  List.length_append

@[simp] theorem create_self (runKey turnId : String) :
    (w.create runKey turnId).runs (RunSessionExecution.idFor runKey) =
      some ⟨.queued, none, turnId⟩ :=
  Function.update_self ..

theorem create_of_ne {runKey id : String} (turnId : String)
    (h : id ≠ RunSessionExecution.idFor runKey) : (w.create runKey turnId).runs id = w.runs id :=
  Function.update_of_ne h ..

/-- A Run is not created twice. -/
def submit (runKey turnId : String) : PiWorld :=
  match w.runs (RunSessionExecution.idFor runKey) with
  | some _ => w
  | none => w.create runKey turnId

/-- A Run that has ended stays as it is. -/
def changeRun (id : String) (change : PiRun → PiRun) : PiWorld :=
  match w.runs id with
  | none => w
  | some run =>
    if run.status = .terminal then w
    else { w with runs := Function.update w.runs id (some (change run)) }

end PiWorld

/-- The outcome of a request that does something elsewhere. -/
def PiWorld.done (w : PiWorld) (x : PiChoice) (next : PiWorld) :
    Except ServiceFailure Unit × PiWorld :=
  match x.fate.settle (some next) w with
  | (.done, w') => (.ok (), w')
  | (_, w') => (.error (x.failure.getD (.error "connection lost")), w')

def handlePi (_ : ℕ) : (e : PiEffect) → PiChoice → PiWorld → Option (e.Answer × PiWorld)
  | .readSession, x, w =>
    if x.session = none ∧ ¬w.runtime.any (·.value.closed) then none else some (x.session, w)
  | .getRuntime, _, w => some (w.runtime, w)
  | .putRuntime expected value, x, w => some (x.fate.settle (w.putRuntime expected value) w)
  | .commitRuntime expected value _, x, w => some (x.fate.settle (w.putRuntime expected value) w)
  | .getRun id, x, w => some (x.result (if x.hidden then none else w.runs id), w)
  | .sourceStopped id generation, x, w =>
    some (x.result (x.flag && decide ((id, generation) ∈ w.stopped)), w)
  | .checkInputConnection _, x, w => some (x.result (), w)
  | .eventsReady _, x, w => some (x.result x.flag, w)
  | .startSessionTurn .., x, w => some (x.result (), w)
  | .prepareLaunch .., x, w => some (x.result (), w)
  | .attachManaged _, x, w => some (x.result (), w)
  | .submit runKey turnId, x, w => some (w.done x (w.submit runKey turnId))
  | .steer .., x, w => some (x.result (), w)
  | .interrupt .., x, w => some (x.result (), w)
  | .cancelRun id, x, w =>
    some (w.done x (w.changeRun id fun run ↦ { run with status := .terminal }))
  | .retireEnvironment, x, w => some (x.result (), w)
  | .closeTools, x, w => some (x.result (), w)
  | .repairPi, x, w => some (x.result x.native, w)
  | .abortPi, x, w => some (x.result (), w)
  | .now, x, w => some (x.now, w)
  | .advanceRun id run, _, w => some ((), w.changeRun id fun _ ↦ run)
  | .stopRun id generation, _, w =>
    some ((), { w with stopped := w.stopped ++ [(id, generation)] })

def piService (sessionId : String) :
    Service PiWorld PiEffect PiEffect.Answer ServiceFailure Unit PiCall PiChoice :=
  ⟨piBody sessionId, handlePi⟩

end RatThings
