import RatThings.Agents.Store
import RatThings.Integrations.Record

/-!
# Schedules

An external scheduler delivers an invocation for each due time of a schedule, perhaps more than
once and perhaps late. What is decided about a due time is kept in the schedule's own record, so the
compare-and-swap that guards the schedule against edits also makes the decision single.

The record is that of one schedule. Sessions and their integrations belong to other services: what
an invocation learns of them is what the world answers.

## History

The world keeps what each invocation was told about Sessions, with the revision that the schedule
had then, and what was handed to the integration. Nobody reads it.
-/

namespace RatThings

open Concurrent Prog

/-! ## Records -/

inductive OverlapPolicy : Type
  | allow | skip
deriving DecidableEq, Repr

/-- `environment` and `destinations` are JSON texts. -/
structure ScheduleConfiguration where
  name : String
  expression : String
  timezone : Option String
  input : String
  overlap : OverlapPolicy
  agentId : String
  environment : String
  vaultIds : List String
  runtime : Option String
  watchdog : Option String
  destinations : Option String
  connectionSetId : Option String
deriving DecidableEq, Repr

inductive ScheduleStatus : Type
  | active | paused | deleted
deriving DecidableEq, Repr

structure Schedule where
  configuration : ScheduleConfiguration
  status : ScheduleStatus
  generation : ℕ
  createdAt : ℕ
  updatedAt : ℕ
deriving DecidableEq, Repr

inductive ScheduleOccurrence : Type
  | accepted (sessionId : String) (configuration : ScheduleConfiguration)
      (runtimePin : Option String)
  | skipped
deriving DecidableEq, Repr

def ScheduleOccurrence.sessionId? : ScheduleOccurrence → Option String
  | .accepted sessionId _ _ => some sessionId
  | .skipped => none

structure ScheduleState where
  schedule : Schedule
  activeSessionId : Option String
  /-- By due time, in the order of the decisions. -/
  occurrences : List (String × ScheduleOccurrence)
deriving DecidableEq, Repr

structure ScheduleInvocation where
  generation : ℕ
  /-- In UTC. -/
  scheduledAt : String
deriving DecidableEq, Repr

abbrev ScheduleValue : Unit → Type := fun _ ↦ ScheduleState

/-! ## Requests -/

/-- What an accepted occurrence hands to the integration. -/
structure ScheduleSubmission where
  scheduledAt : String
  configuration : ScheduleConfiguration
  runtimePin : Option String
  text : String
deriving DecidableEq, Repr

inductive ScheduleAsk : Type
  | now
  | validateTarget (configuration : ScheduleConfiguration)
  | retrieveSession (id : String)
  /-- The inputs of an integration, each with the Turn it belongs to. -/
  | integrationInputs (id : String)
  | runtimePinFor (agentId : String) (runtime : Option String)
  | accept (submission : ScheduleSubmission)
deriving DecidableEq, Repr

abbrev ScheduleAsk.Answer : ScheduleAsk → Type
  | .now => ℕ
  | .validateTarget _ => Except ServiceFailure Unit
  | .retrieveSession _ => Except ServiceFailure SessionStatus
  | .integrationInputs _ => Except ServiceFailure (Option (List (Option String)))
  | .runtimePinFor .. => Except ServiceFailure (Option String)
  | .accept _ => Except ServiceFailure Unit

abbrev ScheduleProg : Type → Type := StoreProg Unit ScheduleValue ScheduleAsk.Answer

def readSchedule : ScheduleProg (Slot ScheduleState) := perform (RecordEffect.get ())

def askSchedule (q : ScheduleAsk) : ScheduleProg q.Answer := perform (RecordEffect.ask q)

/-! ## Planning -/

/-- An update keeps the fields it may leave out. -/
def ScheduleConfiguration.with (old new : ScheduleConfiguration) : ScheduleConfiguration :=
  { new with
    timezone := new.timezone <|> old.timezone
    runtime := new.runtime <|> old.runtime
    watchdog := new.watchdog <|> old.watchdog
    destinations := new.destinations <|> old.destinations
    connectionSetId := new.connectionSetId <|> old.connectionSetId }

def ScheduleState.lookup (state : ScheduleState) (scheduledAt : String) :
    Option ScheduleOccurrence := state.occurrences.lookup scheduledAt

/-- The template with its two fields filled in. The first number bounds the length of what is
left. -/
def fillTemplate (scheduledAt scheduleId : List Char) : ℕ → List Char → List Char
  | 0, rest => rest
  | _, [] => []
  | n + 1, c :: rest =>
    let dueTime := "\x7b\x7bscheduled_at\x7d\x7d".toList
    let name := "\x7b\x7bschedule_id\x7d\x7d".toList
    if dueTime.isPrefixOf (c :: rest) then
      scheduledAt ++ fillTemplate scheduledAt scheduleId n ((c :: rest).drop dueTime.length)
    else if name.isPrefixOf (c :: rest) then
      scheduleId ++ fillTemplate scheduledAt scheduleId n ((c :: rest).drop name.length)
    else c :: fillTemplate scheduledAt scheduleId n rest

def scheduleInput (scheduleId : String) (configuration : ScheduleConfiguration)
    (invocation : ScheduleInvocation) : String :=
  String.ofList (fillTemplate invocation.scheduledAt.toList scheduleId.toList
    configuration.input.length configuration.input.toList)

/-- The record after a decision about a due time. -/
def ScheduleState.decide (state : ScheduleState) (scheduledAt : String)
    (occurrence : ScheduleOccurrence) : ScheduleState :=
  { state with
    activeSessionId := occurrence.sessionId? <|> state.activeSessionId
    occurrences := state.occurrences ++ [(scheduledAt, occurrence)] }

/-! ## Methods -/

inductive ScheduleResult : Type
  | schedule (schedule : Schedule)
  | accepted (sessionId : String)
  | rejected (reason : String)
deriving DecidableEq, Repr

namespace ScheduleService

def require : ScheduleProg (Versioned ScheduleState) :=
  (requiredRecord () : StoreProg Unit ScheduleValue ScheduleAsk.Answer _)

def putSchedule (current : Versioned ScheduleState) (value : ScheduleState) : ScheduleProg Unit :=
  putRecord (k := ()) current value

def create (configuration : ScheduleConfiguration) : ScheduleProg Schedule := do
  let valid ← askSchedule (.validateTarget configuration)
  let () ← Prog.ofExcept valid
  let now ← askSchedule .now
  let schedule : Schedule := ⟨configuration, .active, 1, now, now⟩
  commitWrites [⟨(), 0, some ⟨schedule, none, []⟩⟩]
  pure schedule

def update (configuration : ScheduleConfiguration) : ScheduleProg Schedule := do
  let valid ← askSchedule (.validateTarget configuration)
  let () ← Prog.ofExcept valid
  let current ← require
  if current.value.schedule.status = .deleted then throw (.api notFoundError)
  else do
    let now ← askSchedule .now
    let old := current.value.schedule
    let schedule : Schedule := ⟨old.configuration.with configuration, old.status,
      old.generation + 1, old.createdAt, now⟩
    putSchedule current { current.value with schedule := schedule }
    pure schedule

def setStatus (status : ScheduleStatus) : ScheduleProg Schedule := do
  let current ← require
  if current.value.schedule.status = .deleted then throw (.api notFoundError)
  else do
    let now ← askSchedule .now
    let old := current.value.schedule
    let schedule : Schedule := ⟨old.configuration, status, old.generation + 1, old.createdAt, now⟩
    putSchedule current { current.value with schedule := schedule }
    pure schedule

/-- The Session is at work, or is still to be created. -/
def active (id : String) : ScheduleProg Bool := do
  match ← askSchedule (.retrieveSession id) with
  | .ok status => pure (status == .inProgress)
  | .error (.api error) =>
    if error.status ≠ 404 then throw (.api error)
    else do
      let inputs ← askSchedule (.integrationInputs id)
      let inputs ← Prog.ofExcept inputs
      -- Reserved occurrences and deleted Sessions differ in the integration that was accepted.
      pure (inputs.all fun turnIds ↦ turnIds.any (·.isNone))
  | .error error => throw error

variable (scheduleId : String)

def submit (invocation : ScheduleInvocation) (configuration : ScheduleConfiguration)
    (sessionId : String) (runtimePin : Option String) : ScheduleProg ScheduleResult := do
  let accepted ← askSchedule (.accept ⟨invocation.scheduledAt, configuration, runtimePin,
    scheduleInput scheduleId configuration invocation⟩)
  let () ← Prog.ofExcept accepted
  pure (.accepted sessionId)

/-- Carry out what was decided. -/
def settle (invocation : ScheduleInvocation) : ScheduleOccurrence → ScheduleProg ScheduleResult
  | .skipped => pure (.rejected "overlap")
  | .accepted sessionId configuration runtimePin =>
    submit scheduleId invocation configuration sessionId runtimePin

/-- Whether the last accepted occurrence stands in the way of another one. -/
def overlapping (state : ScheduleState) : ScheduleProg Bool :=
  match state.activeSessionId with
  | none => pure false
  | some id => if state.schedule.configuration.overlap = .skip then active id else pure false

/-- What is decided about a due time. -/
def decideOccurrence (invocation : ScheduleInvocation) (state : ScheduleState) :
    ScheduleProg ScheduleOccurrence := do
  if ← overlapping state then pure .skipped
  else do
    let configuration := state.schedule.configuration
    let runtimePin ← askSchedule (.runtimePinFor configuration.agentId configuration.runtime)
    let runtimePin ← Prog.ofExcept runtimePin
    pure (.accepted (integrationSessionId scheduleId invocation.scheduledAt) configuration
      runtimePin)

/-- Whether the decision was written; it is not when the schedule has changed meanwhile. -/
def saveOccurrence (current : Versioned ScheduleState) (scheduledAt : String)
    (occurrence : ScheduleOccurrence) (attempts : ℕ) : ScheduleProg Bool :=
  Prog.catching
    (do putSchedule current (current.value.decide scheduledAt occurrence)
        pure true)
    fun error ↦ if error.hasCode "conflict" = false ∨ attempts = 0 then throw error else pure false

def invokeAttempts (invocation : ScheduleInvocation) : ℕ → ScheduleProg ScheduleResult
  | 0 => throw (.api conflictError)
  | attempts + 1 => do
    match ← readSchedule with
    | none => pure (.rejected "schedule_missing")
    | some current =>
      match current.value.lookup invocation.scheduledAt with
      -- An accepted occurrence keeps its snapshot, even if its schedule is edited afterwards.
      | some previous => settle scheduleId invocation previous
      | none =>
        let schedule := current.value.schedule
        if schedule.status ≠ .active ∨ invocation.generation ≠ schedule.generation then
          pure (.rejected "stale_schedule")
        else do
          let occurrence ← decideOccurrence scheduleId invocation current.value
          if ← saveOccurrence current invocation.scheduledAt occurrence attempts then
            settle scheduleId invocation occurrence
          else invokeAttempts invocation attempts

def invoke (invocation : ScheduleInvocation) : ScheduleProg ScheduleResult :=
  invokeAttempts scheduleId invocation 10

end ScheduleService

/-! ## Calls -/

inductive ScheduleCall : Type
  | create (configuration : ScheduleConfiguration)
  | update (configuration : ScheduleConfiguration)
  | setStatus (status : ScheduleStatus)
  | invoke (invocation : ScheduleInvocation)
deriving DecidableEq, Repr

def scheduleBody (scheduleId : String) : ScheduleCall → ScheduleProg ScheduleResult
  | .create configuration => ScheduleResult.schedule <$> ScheduleService.create configuration
  | .update configuration => ScheduleResult.schedule <$> ScheduleService.update configuration
  | .setStatus status => ScheduleResult.schedule <$> ScheduleService.setStatus status
  | .invoke invocation => ScheduleService.invoke scheduleId invocation

/-! ## The world -/

/-- What an invocation was told about a Session. -/
inductive SessionSight : Type
  | session (status : SessionStatus)
  | missing
  | integration (inputs : Option (List (Option String)))
deriving DecidableEq, Repr

structure SessionCheck where
  caller : ℕ
  sessionId : String
  /-- That of the schedule at this time. -/
  revision : ℕ
  sight : SessionSight
deriving DecidableEq, Repr

structure ScheduleGhost where
  revision : ℕ
  checks : List SessionCheck
  submitted : List ScheduleSubmission

abbrev ScheduleWorld : Type := RecordWorld Unit ScheduleValue ScheduleGhost

structure ScheduleChoice where
  now : ℕ := 0
  failure : Option ServiceFailure := none
  status : SessionStatus := .idle
  inputs : Option (List (Option String)) := none
  runtimePin : Option String := none
deriving DecidableEq, Repr

def ScheduleChoice.result {α : Type} (x : ScheduleChoice) (a : α) : Except ServiceFailure α :=
  match x.failure with
  | some failure => .error failure
  | none => .ok a

def ScheduleGhost.see (g : ScheduleGhost) (pid : ℕ) (id : String) (sight : SessionSight) :
    ScheduleGhost :=
  { g with checks := g.checks ++ [⟨pid, id, g.revision, sight⟩] }

def scheduleSurroundings :
    Surroundings Unit ScheduleValue ScheduleAsk ScheduleAsk.Answer ScheduleGhost
      ScheduleChoice where
  answer pid q x g :=
    match q with
    | .now => some (x.now, g)
    | .validateTarget _ => some (x.result (), g)
    | .retrieveSession id =>
      some (x.result x.status, match x.result x.status with
        | .ok status => g.see pid id (.session status)
        | .error (.api error) => if error.status = 404 then g.see pid id .missing else g
        | .error _ => g)
    | .integrationInputs id =>
      some (x.result x.inputs, match x.result x.inputs with
        | .ok inputs => g.see pid id (.integration inputs)
        | .error _ => g)
    | .runtimePinFor .. => some (x.result x.runtimePin, g)
    | .accept submission =>
      some (x.result (), { g with submitted := g.submitted ++ [submission] })
  observe _ _ after g := { g with revision := (after ()).revision }

def scheduleService (scheduleId : String) :
    Service ScheduleWorld (RecordEffect Unit ScheduleValue ScheduleAsk)
      (RecordEffect.Answer ScheduleAsk.Answer) ServiceFailure ScheduleResult ScheduleCall
      (RecordChoice ScheduleChoice) :=
  scheduleSurroundings.service (scheduleBody scheduleId)

end RatThings
