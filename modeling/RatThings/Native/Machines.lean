import RatThings.Library.Interleaving
import RatThings.Library.OrderedMap
import RatThings.Native.Admission

/-!
# The native runtime

`LocalNativeRuntime` runs the workers of local Sessions in virtual machines, one at a time. Its
fields are the machines it has registered, by Session, and the reservation of the one slot: an
operation reserves the slot, boots a machine, and hands the reservation over to the machine when it
ends. Everything here happens in one process, so the requests of the model are the stretches of code
between two waits; each is atomic.

Operations on a Session take turns. `setup` and `withDisposableWorker` take turns under names of
their own instead.

## Machines

A machine is alive until it exits, and it may do so at any time. A moment later its end is noticed:
`exited` resolves and the callback of `boot` runs. Until then a machine that was asked to stop, or
killed, may go on for as long as it likes.
-/

namespace RatThings

open Concurrent Prog

/-! ## The state -/

inductive ReservedOperation : Type
  | worker | snapshot | probe
deriving DecidableEq, Repr

inductive Reservation : Type
  | pending (sessionId : String) (operation : ReservedOperation)
  | running (sessionId : String)
deriving DecidableEq, Repr

def Reservation.sessionId : Reservation → String
  | pending sessionId _ => sessionId
  | running sessionId => sessionId

/-- A virtual machine. -/
structure NativeMachine where
  sessionId : String
  disposable : Bool
  alive : Bool
  /-- Its end was noticed. -/
  exited : Bool
deriving DecidableEq, Repr

/-- An operation in progress: the call it belongs to, the name under which it takes turns, and the
Session it is about. -/
structure MachineOperation where
  pid : ℕ
  key : String
  session : Option String
deriving DecidableEq, Repr

structure NativeRuntime where
  /-- Every machine that was launched; a machine is known by its position. -/
  launched : List NativeMachine
  /-- The registered machine of each Session. -/
  machines : OrderedMap String ℕ
  reservation : Option Reservation
  /-- Sessions that are known to have no storage. -/
  unallocated : List String
  closing : Bool
  /-- The operations that were admitted and have not ended, with their calls. -/
  admitted : List (ℕ × String)
  operations : List MachineOperation
deriving Repr

/-- A runtime that was just constructed. -/
def NativeRuntime.fresh : NativeRuntime := ⟨[], .empty, none, [], false, [], []⟩

/-! ## Requests -/

inductive NativeError : Type
  | refused (admission : NativeAdmission)
  | message (text : String)
deriving DecidableEq, Repr

/-- Something the runtime waits for that touches none of its fields. -/
inductive NativeWait : Type
  /-- `signal.throwIfAborted()`, or an abort that interrupts a wait. -/
  | signal
  | probeDirectory
  | commitWorkspaceClaim
  | diskBinding (sessionId : String)
  | bootFiles (mode : String) (resources : NativeResources)
  | started (vm : ℕ)
  | control (vm : ℕ) (operation : String)
  | check (vm : ℕ)
  | archiveWorkspace
  | removeWorkspace (sessionId : String)
  | workspaceIdle (sessionId : String)
deriving DecidableEq, Repr

inductive MachineRequest : Type
  /-- `lifecycle.run`: refused once the runtime is closing. -/
  | admitOperation (key : String)
  /-- The operation's turn has come. -/
  | enter (key : String) (session : Option String)
  | leave (key : String)
  /-- A random Session for a probe. -/
  | probeSession
  | await (wait : NativeWait)
  | source
  | verifyImage
  | capacityFacts
  | initrdSize
  | workspaceAbsent (sessionId : String)
  | reserve (sessionId : String) (operation : ReservedOperation) (provenance : NativeProvenance)
      (facts : NativeHostFacts) (availableDiskBytes requiredDiskBytes : ℕ)
  | releaseOperation (sessionId : String)
  | reservation
  /-- `machines.get`. -/
  | machine (sessionId : String)
  /-- Start a machine and register it. -/
  | launch (sessionId : String) (disposable : Bool)
  | alive (vm : ℕ)
  | health (vm : ℕ)
  | kill (vm : ℕ)
  /-- `vm.stop()`: it may succeed or fail whatever becomes of the machine. -/
  | stop (vm : ℕ)
  /-- `await vm.exited`. -/
  | exited (vm : ℕ)
  /-- `await vm.exited`, but not for long. -/
  | confirmedExit (vm : ℕ)
  /-- Forget a machine that failed to boot. -/
  | unregister (sessionId : String) (vm : ℕ)
  /-- The end of `stopWorker`: forget the machine if it has exited. -/
  | settleStop (sessionId : String) (vm : ℕ)
  | isUnallocated (sessionId : String)
  | setUnallocated (sessionId : String) (absent : Bool)
  | beginClose
  /-- All admitted operations have ended. -/
  | drained
  | registered
  /-- The machine exits. -/
  | die (vm : ℕ)
  /-- Its end is noticed. -/
  | exitCallback (vm : ℕ)
deriving DecidableEq, Repr

abbrev MachineRequest.Answer : MachineRequest → Type
  | .admitOperation _ => Except NativeError Unit
  | .probeSession => String
  | .await _ => Except NativeError Unit
  | .source => Except NativeError NativeProvenance
  | .verifyImage => Except NativeError NativeProvenance
  | .capacityFacts => Except NativeError (NativeHostFacts × ℕ)
  | .initrdSize => Except NativeError ℕ
  | .workspaceAbsent _ => Except NativeError Bool
  | .reserve .. => Except NativeError NativeResources
  | .reservation => Option Reservation
  | .machine _ => Option ℕ
  | .launch .. => Except NativeError ℕ
  | .alive _ => Bool
  | .health _ => Except NativeError Bool
  | .stop _ => Except NativeError Unit
  | .confirmedExit _ => Except NativeError Unit
  | .isUnallocated _ => Bool
  | .beginClose => Bool
  | .registered => List (String × ℕ × Bool)
  | _ => Unit

abbrev MachineProg := Prog MachineRequest MachineRequest.Answer NativeError

/-! ## Answers -/

/-- What the environment decides about one answer. Each request reads the fields it needs. -/
structure MachineChoice where
  fault : Option NativeError := none
  sessionId : String := ""
  provenance : NativeProvenance := .trustedRelease
  facts : NativeHostFacts :=
    ⟨true, "arm64", 16 * gib, none, 1, 8, gib, 8 * gib, .normal⟩
  bytes : ℕ := gib
  healthy : Bool := true

def MachineChoice.attempt {α : Type} (x : MachineChoice) (a : α) : Except NativeError α :=
  match x.fault with
  | none => .ok a
  | some error => .error error

namespace NativeRuntime

variable (w : NativeRuntime)

/-- This call has an operation on this Session in progress. -/
def Operates (pid : ℕ) (sessionId : String) : Prop :=
  ∃ key, ⟨pid, key, some sessionId⟩ ∈ w.operations

def isAlive (vm : ℕ) : Bool := w.launched[vm]?.any (·.alive)

def hasExited (vm : ℕ) : Bool := w.launched[vm]?.any (·.exited)

/-- Change one machine. -/
def updateMachine (vm : ℕ) (f : NativeMachine → NativeMachine) : NativeRuntime :=
  { w with launched := w.launched.modify vm f }

/-- Take the machine out of the table, if it is the one registered there. -/
def unregister (sessionId : String) (vm : ℕ) : NativeRuntime :=
  if w.machines.get? sessionId = some vm then { w with machines := w.machines.erase sessionId }
  else w

/-- Free the slot, if a machine of this Session runs in it. -/
def freeRunning (sessionId : String) : NativeRuntime :=
  if w.reservation = some (.running sessionId) then { w with reservation := none } else w

def admission (sessionId : String) (provenance : NativeProvenance) (facts : NativeHostFacts)
    (availableDiskBytes requiredDiskBytes : ℕ) : NativeAdmission :=
  imageAdmission provenance
    { facts
      requestedCPUCount := 1
      slotAvailable := w.reservation.all (· = .running sessionId)
      availableDiskBytes
      requiredDiskBytes
      existingAllocation := (w.machines.get? sessionId).any w.isAlive }

def releaseOperation (sessionId : String) : NativeRuntime :=
  if w.reservation.any (·.sessionId = sessionId) then
    { w with reservation :=
        if (w.machines.get? sessionId).isSome then some (.running sessionId) else none }
  else w

def launch (sessionId : String) (disposable : Bool) : NativeRuntime :=
  { w with
    launched := w.launched ++ [⟨sessionId, disposable, true, false⟩]
    machines := w.machines.set sessionId w.launched.length }

/-- The callback that `boot` installs. -/
def exitCallback (vm : ℕ) (machine : NativeMachine) : NativeRuntime :=
  (((w.updateMachine vm fun m ↦ { m with exited := true }).unregister machine.sessionId
    vm).freeRunning machine.sessionId)

/-- No operation and no machine was ever about this Session. -/
def isNew (sessionId : String) : Bool :=
  w.operations.all (·.session != some sessionId) && w.launched.all (·.sessionId != sessionId)

end NativeRuntime

def handleNative (pid : ℕ) :
    (e : MachineRequest) → MachineChoice → NativeRuntime → Option (e.Answer × NativeRuntime)
  | .admitOperation key, _, w =>
    if w.closing then some (.error (.message "Local runtime is shutting down"), w)
    else some (.ok (), { w with admitted := (pid, key) :: w.admitted })
  | .enter key session, _, w =>
    if w.operations.any (·.key = key) then none
    else some ((), { w with operations := w.operations ++ [⟨pid, key, session⟩] })
  | .leave key, _, w => some ((), { w with
      operations := w.operations.filter (·.key ≠ key)
      admitted := w.admitted.filter (· ≠ (pid, key)) })
  | .probeSession, x, w =>
    if w.isNew x.sessionId then
      some (x.sessionId, { w with operations := w.operations.map fun op ↦
          if op.pid = pid ∧ op.session = none then { op with session := some x.sessionId }
          else op })
    else none
  | .await _, x, w => some (x.attempt (), w)
  | .source, x, w => some (x.attempt x.provenance, w)
  | .verifyImage, x, w => some (x.attempt x.provenance, w)
  | .capacityFacts, x, w => some (x.attempt (x.facts, x.bytes), w)
  | .initrdSize, x, w => some (x.attempt x.bytes, w)
  | .workspaceAbsent _, x, w => some (x.attempt x.healthy, w)
  | .reserve sessionId operation provenance facts availableDiskBytes requiredDiskBytes, _, w =>
    match w.admission sessionId provenance facts availableDiskBytes requiredDiskBytes with
    | .admitted resources =>
      some (.ok resources, { w with reservation := some (.pending sessionId operation) })
    | refusal => some (.error (.refused refusal), w)
  | .releaseOperation sessionId, _, w => some ((), w.releaseOperation sessionId)
  | .reservation, _, w => some (w.reservation, w)
  | .machine sessionId, _, w => some (w.machines.get? sessionId, w)
  | .launch sessionId disposable, x, w =>
    match x.fault with
    | none => some (.ok w.launched.length, w.launch sessionId disposable)
    | some error => some (.error error, w)
  | .alive vm, _, w => some (w.isAlive vm, w)
  | .health _, x, w => some (x.attempt x.healthy, w)
  | .kill _, _, w => some ((), w)
  | .stop _, x, w => some (x.attempt (), w)
  | .exited vm, _, w => if w.hasExited vm then some ((), w) else none
  | .confirmedExit vm, x, w =>
    if x.fault.isSome || w.hasExited vm then some (x.attempt (), w) else none
  | .unregister sessionId vm, _, w => some ((), w.unregister sessionId vm)
  | .settleStop sessionId vm, _, w =>
    some ((), if w.hasExited vm then (w.unregister sessionId vm).freeRunning sessionId else w)
  | .isUnallocated sessionId, _, w => some (w.unallocated.contains sessionId, w)
  | .setUnallocated sessionId absent, _, w => some ((), { w with
      unallocated := if absent then sessionId :: w.unallocated
        else w.unallocated.filter (· ≠ sessionId) })
  | .beginClose, _, w => some (!w.closing, { w with closing := true })
  | .drained, _, w => if w.admitted = [] then some ((), w) else none
  | .registered, _, w => some (w.machines.entries.map fun entry ↦
      (entry.1, entry.2, w.launched[entry.2]?.any (·.disposable)), w)
  | .die vm, _, w =>
    if w.isAlive vm then some ((), w.updateMachine vm fun m ↦ { m with alive := false }) else none
  | .exitCallback vm, _, w =>
    match w.launched[vm]? with
    | none => none
    | some machine =>
      if machine.alive || machine.exited then none else some ((), w.exitCallback vm machine)

/-! ## Methods -/

namespace LocalNativeRuntime

/-- Wait for something that may fail. -/
def await (wait : NativeWait) : MachineProg Unit := do
  Prog.ofExcept (← perform (MachineRequest.await wait))

def throwIfAborted (signal : Bool) : MachineProg Unit :=
  if signal then await .signal else pure ()

/-- `lifecycle.run`: the operation takes its turn under this name. -/
def run (key : String) (session : Option String) (operation : MachineProg Unit) :
    MachineProg Unit := do
  Prog.ofExcept (← perform (MachineRequest.admitOperation key))
  perform (MachineRequest.enter key session)
  operation.ensuring (perform (MachineRequest.leave key))

def workspaceBytes : ℕ := 256 * 1024 ^ 2

/-- What an image needs on disk besides the workspace. -/
def imageBytes (provenance : NativeProvenance) : MachineProg ℕ :=
  if provenance = .linuxKvmDevelopment then do
    let size ← Prog.ofExcept (← perform MachineRequest.initrdSize)
    pure (size + 1024 ^ 2)
  else pure 0

/-- Reserve the slot. The check and the reservation are one step. -/
def reserve (sessionId : String) (operation : ReservedOperation) (signal : Bool) :
    MachineProg NativeResources := do
  let provenance ← Prog.ofExcept (← perform MachineRequest.verifyImage)
  let facts ← Prog.ofExcept (← perform MachineRequest.capacityFacts)
  throwIfAborted signal
  let bytes ← imageBytes provenance
  Prog.ofExcept (← perform (MachineRequest.reserve sessionId operation provenance facts.1 facts.2
    (workspaceBytes + bytes)))

/-- Ping the guest until it answers. -/
def connect (vm : ℕ) (signal : Bool) : ℕ → MachineProg Unit
  | 0 => throw (.message "Native guest boot timed out")
  | attempts + 1 =>
    tryCatch (await (.control vm "ping")) fun _ ↦ do
      throwIfAborted signal
      let alive ← perform (MachineRequest.alive vm)
      if alive then connect vm signal attempts else throw (.message "Native guest stopped")

def confirmedExit (vm : ℕ) : MachineProg Unit := do
  Prog.ofExcept (← perform (MachineRequest.confirmedExit vm))

/-- A disposable machine is not waited for for ever. -/
def awaitExit (vm : ℕ) (signal : Bool) : MachineProg Unit :=
  if signal then confirmedExit vm else perform (MachineRequest.exited vm)

/-- Launch a machine and wait until it answers; one that does not is killed. -/
def boot (sessionId mode : String) (resources : NativeResources) (signal : Bool) :
    MachineProg ℕ := do
  await (.bootFiles mode resources)
  throwIfAborted signal
  let vm ← Prog.ofExcept (← perform (MachineRequest.launch sessionId signal))
  tryCatch
    (do
      await (.started vm)
      connect vm signal 150
      pure vm)
    fun error ↦ do
      perform (MachineRequest.kill vm)
      awaitExit vm signal
      perform (MachineRequest.unregister sessionId vm)
      throw error

def stopWorker (sessionId : String) : MachineProg Unit := do
  match ← perform (MachineRequest.machine sessionId) with
  | none => pure ()
  | some vm =>
    Prog.ensuring
      (do
        Prog.ofExcept (← perform (MachineRequest.stop vm))
        perform (MachineRequest.exited vm))
      (perform (MachineRequest.settleStop sessionId vm))

def stopProbeWorker (sessionId : String) : MachineProg Unit := do
  match ← perform (MachineRequest.machine sessionId) with
  | none => pure ()
  | some vm =>
    tryCatch (do Prog.ofExcept (← perform (MachineRequest.stop vm))) fun error ↦ do
      perform (MachineRequest.kill vm)
      confirmedExit vm
      throw error
    confirmedExit vm

/-! ### Probes -/

/-- `setup`: boot a machine for a random Session, and stop it again. -/
def probe : MachineProg Unit := do
  let sessionId ← perform MachineRequest.probeSession
  let resources ← reserve sessionId .probe false
  Prog.ensuring
    (do
      await (.diskBinding sessionId)
      let _ ← boot sessionId "fresh" resources false
      pure ())
    ((stopWorker sessionId).ensuring do
      perform (MachineRequest.releaseOperation sessionId)
      match ← perform (MachineRequest.machine sessionId) with
      | none => await (.removeWorkspace sessionId)
      | some _ => pure ())

/-- What a disposable worker is asked for. -/
structure DisposableRequest where
  sessionId : String
  /-- The Session its workspace claims to belong to. -/
  workspaceSession : String
  create : Bool
deriving DecidableEq, Repr

/-- `^sess_probe[a-f0-9]{32}$`. -/
def isProbeSession (sessionId : String) : Bool :=
  let digits := sessionId.toList.drop 10
  "sess_probe".toList.isPrefixOf sessionId.toList && digits.length == 32 &&
    digits.all fun c ↦ ('0' ≤ c && c ≤ '9') || ('a' ≤ c && c ≤ 'f')

/-- `^sess_[a-zA-Z0-9]+$`. -/
def isSession (sessionId : String) : Bool :=
  let rest := sessionId.toList.drop 5
  "sess_".toList.isPrefixOf sessionId.toList && !rest.isEmpty &&
    rest.all fun c ↦ ('0' ≤ c && c ≤ '9') || ('a' ≤ c && c ≤ 'z') || ('A' ≤ c && c ≤ 'Z')

/-- Run a worker for as long as a check takes. Its clean-up runs however it fails, also before it
has reserved anything. -/
def disposableWorker (input : DisposableRequest) : MachineProg Unit :=
  Prog.ensuring
    (do
      await .signal
      await .probeDirectory
      if !isSession input.workspaceSession || !input.create ||
          input.workspaceSession ≠ input.sessionId || !isProbeSession input.sessionId then
        throw (.message "Invalid disposable native identity")
      else do
        let resources ← reserve input.sessionId .probe true
        await .signal
        await (.diskBinding input.sessionId)
        await .signal
        let vm ← boot input.sessionId "fresh" resources true
        await (.control vm "start")
        let registered ← perform (MachineRequest.alive vm)
        if !registered then throw (.message "Native probe worker registration failed")
        else do
          await (.control vm "health")
          let healthy ← perform (MachineRequest.alive vm)
          if !healthy then throw (.message "Native probe executor is unavailable")
          else await (.check vm))
    ((stopProbeWorker input.sessionId).ensuring
      (perform (MachineRequest.releaseOperation input.sessionId)))

/-! ### Workers -/

structure StartRequest where
  sessionId : String
  workspaceSession : String
  create : Bool
deriving DecidableEq, Repr

/-- A rejected fresh reservation proves that no storage was allocated. -/
def reserveWorker (request : StartRequest) : MachineProg NativeResources :=
  tryCatch (reserve request.sessionId .worker false) fun error ↦ do
    let machine ← perform (MachineRequest.machine request.sessionId)
    if request.create && machine.isNone then do
      let absent ← Prog.ofExcept (← perform (MachineRequest.workspaceAbsent request.sessionId))
      if absent then do
        perform (MachineRequest.setUnallocated request.sessionId true)
        throw error
      else throw error
    else throw error

def startWorker (request : StartRequest) : MachineProg Unit := do
  if !isSession request.workspaceSession || request.workspaceSession ≠ request.sessionId then
    throw (.message "Workspace claim does not match Session")
  else do
    perform (MachineRequest.setUnallocated request.sessionId false)
    let resources ← reserveWorker request
    Prog.ensuring
      (do
        await .commitWorkspaceClaim
        await (.diskBinding request.sessionId)
        stopWorker request.sessionId
        let vm ← boot request.sessionId (if request.create then "fresh" else "existing") resources
          false
        tryCatch
          (do
            await (.control vm "start")
            let alive ← perform (MachineRequest.alive vm)
            if alive then pure ()
            else throw (.message "Native worker stopped during registration"))
          fun error ↦ do
            stopWorker request.sessionId
            throw error)
      (perform (MachineRequest.releaseOperation request.sessionId))

def snapshotWorker (sessionId : String) : MachineProg Unit :=
  if !isSession sessionId then throw (.message "Invalid Session identity")
  else do
    let resources ← reserve sessionId .snapshot false
    Prog.ensuring
      (do
        await (.diskBinding sessionId)
        stopWorker sessionId
        let vm ← boot sessionId "readonly" resources false
        Prog.ensuring
          (do
            await (.control vm "snapshot")
            await .archiveWorkspace)
          (stopWorker sessionId))
      (perform (MachineRequest.releaseOperation sessionId))

def workerRunning (sessionId : String) : MachineProg Bool := do
  match ← perform (MachineRequest.machine sessionId) with
  | none => pure false
  | some vm =>
    let alive ← perform (MachineRequest.alive vm)
    if !alive then pure false
    else
      match ← perform (MachineRequest.health vm) with
      | .ok healthy => do
        let alive ← perform (MachineRequest.alive vm)
        pure (healthy && alive)
      | .error _ => pure false

/-- A Turn is admitted on the machine that runs already. -/
def admitTurn (sessionId : String) : MachineProg Unit := do
  let provenance ← Prog.ofExcept (← perform MachineRequest.source)
  let facts ← Prog.ofExcept (← perform MachineRequest.capacityFacts)
  let reservation ← perform MachineRequest.reservation
  match imageAdmission provenance
      { facts := facts.1
        requestedCPUCount := 1
        slotAvailable := reservation = some (.running sessionId)
        availableDiskBytes := facts.2
        requiredDiskBytes := 0
        existingAllocation := true } with
  | .admitted _ => do
    let running ← workerRunning sessionId
    if running then pure () else throw (.message "The isolated native worker is unavailable")
  | refusal => throw (.refused refusal)

/-- Whether a Session that had no storage still has none. -/
def stillAbsent (sessionId : String) (unallocated : Bool) : MachineProg Bool :=
  if unallocated then do
    Prog.ofExcept (← perform (MachineRequest.workspaceAbsent sessionId))
  else pure false

/-- A Session without a machine is stopped once nothing uses its disk. -/
def confirmColdStop (sessionId : String) : MachineProg Unit := do
  let unallocated ← perform (MachineRequest.isUnallocated sessionId)
  let absent ← stillAbsent sessionId unallocated
  if absent then pure ()
  else do
    perform (MachineRequest.setUnallocated sessionId false)
    let provenance ← Prog.ofExcept (← perform MachineRequest.source)
    if provenance ≠ .linuxKvmDevelopment then pure ()
    else do
      let _ ← Prog.ofExcept (← perform MachineRequest.verifyImage)
      await (.diskBinding sessionId)
      await (.workspaceIdle sessionId)

def stopSession (sessionId : String) : MachineProg Unit := do
  match ← perform (MachineRequest.machine sessionId) with
  | some _ => stopWorker sessionId
  | none => confirmColdStop sessionId

/-! ### Closing -/

/-- Stop every machine; a failure does not spare the others. -/
def stopAll : List (String × ℕ × Bool) → Bool → MachineProg Unit
  | [], failed =>
    if failed then throw (.message "Native workers failed to stop cleanly") else pure ()
  | (sessionId, _, disposable) :: machines, failed => do
    let failure ← tryCatch
      (do
        if disposable then stopProbeWorker sessionId else stopWorker sessionId
        pure false)
      fun _ ↦ pure true
    stopAll machines (failed || failure)

def close : MachineProg Unit := do
  let first ← perform MachineRequest.beginClose
  if first then do
    perform MachineRequest.drained
    let machines ← perform MachineRequest.registered
    stopAll machines false
  else pure ()

/-! ## The service -/

inductive Call : Type
  | setup
  | withDisposableWorker (input : DisposableRequest)
  | start (request : StartRequest)
  | snapshot (sessionId : String)
  | admitTurn (sessionId : String)
  | running (sessionId : String)
  | stop (sessionId : String)
  | close
  /-- A machine comes to its end. -/
  | machineExits (vm : ℕ)
deriving DecidableEq, Repr

def body : Call → MachineProg Unit
  | .setup => run "native-readiness" none probe
  | .withDisposableWorker input =>
    run "native-release-probe" (some input.sessionId) (disposableWorker input)
  | .start request => run request.sessionId (some request.sessionId) (startWorker request)
  | .snapshot sessionId => run sessionId (some sessionId) (snapshotWorker sessionId)
  | .admitTurn sessionId => run sessionId (some sessionId) (LocalNativeRuntime.admitTurn sessionId)
  | .running sessionId => run sessionId (some sessionId) do
      let _ ← workerRunning sessionId
      pure ()
  | .stop sessionId => run sessionId (some sessionId) (stopSession sessionId)
  | .close => LocalNativeRuntime.close
  | .machineExits vm => do
    perform (MachineRequest.die vm)
    perform (MachineRequest.exitCallback vm)

def service : Service NativeRuntime MachineRequest MachineRequest.Answer NativeError Unit Call
    MachineChoice :=
  ⟨body, handleNative⟩

end LocalNativeRuntime

end RatThings
