import Mathlib.Algebra.GroupWithZero.Nat
import RatThings.Agents.SessionRuntime
import RatThings.Agents.Store

/-!
# Native leases

A Session run by Pi keeps its native history in the Agents store: one immutable record for each
commit and for each reservation of ids, and the runtime record, which names the last commit and the
highest id. Whoever holds the lease of the runtime record, that is its run and its epoch, may append
and reserve. The other writers of the runtime record are those that claim, close, publish and
schedule recovery.

The records are those of one Session. Names of records begin with its id, which is left out.
-/

namespace RatThings

open Concurrent Prog

/-! ## Records -/

structure NativeHead where
  seq : ℕ
  commitId : String
  digest : String
deriving DecidableEq, Repr

/-- What Pi stores. Only the id of an entity is looked at. -/
inductive StorageWrite : Type
  | value (id : ℕ) (body : String)
  | record (id : ℕ) (body : String)
  | removal (id : ℕ)
deriving DecidableEq, Repr

def StorageWrite.id : StorageWrite → ℕ
  | .value id _ => id
  | .record id _ => id
  | .removal id => id

structure NativeCommit where
  commitId : String
  parent : Option NativeHead
  seq : ℕ
  idHighWater : ℕ
  writes : List StorageWrite
deriving DecidableEq, Repr

structure NativeImage where
  head : Option NativeHead
  highWater : ℕ
  commits : List NativeCommit
deriving DecidableEq, Repr

structure NativeReservation where
  first : ℕ
  last : ℕ
  count : ℕ
deriving DecidableEq, Repr

structure NativeState where
  highWater : ℕ
  head : Option NativeHead
deriving DecidableEq, Repr

/-- The runtime record, of which the history goes by the lease and by what the history needs. -/
abbrev SessionRuntimeRecord : Type := StoredSessionRuntime NativeState String

inductive NativeKey : Type
  | runtime
  | ids (id : String)
  | commit (id : String)
deriving DecidableEq, Repr

abbrev NativeValue : NativeKey → Type
  | .runtime => SessionRuntimeRecord
  | .ids _ => NativeReservation
  | .commit _ => NativeCommit

abbrev NativeWrites : Type := List (Write NativeKey NativeValue)

/-! ## Requests -/

/-- What Pi asks of its storage. What it wants to write has been prepared already. -/
inductive StorageRequest : Type
  | mintId
  | commit (writes : List StorageWrite)
  | close
deriving DecidableEq, Repr

inductive NativeAsk : Type
  | randomUUID
  | nextRequest
  /-- The storage hands out an id. -/
  | minted (id : ℕ)
deriving DecidableEq, Repr

abbrev NativeAsk.Answer : NativeAsk → Type
  | .randomUUID => String
  | .nextRequest => StorageRequest
  | .minted _ => Unit

abbrev NativeProg : Type → Type := StoreProg NativeKey NativeValue NativeAsk.Answer

def readNative (k : NativeKey) : NativeProg (Slot (NativeValue k)) :=
  perform (RecordEffect.get k)

def askNative (q : NativeAsk) : NativeProg q.Answer := perform (RecordEffect.ask q)

/-- The digest of a commit, and the length of its text. -/
structure NativeCodec where
  nativeDigest : NativeCommit → String
  byteLength : NativeCommit → ℕ

/-! ## Planning -/

def nativeConflict : ServiceFailure :=
  .api ⟨409, "Pi native ownership or head changed.", some "native_conflict", none⟩

def maxSafeInteger : ℕ := 2 ^ 53 - 1

def immutable (key : NativeKey) (value : NativeValue key) : Write NativeKey NativeValue :=
  ⟨key, 0, some value⟩

def replaceRuntime (current : Versioned SessionRuntimeRecord) (value : SessionRuntimeRecord) :
    Write NativeKey NativeValue := ⟨.runtime, current.revision, some value⟩

def StoredSessionRuntime.highWater {S : Type} (runtime : StoredSessionRuntime NativeState S) : ℕ :=
  (runtime.native.map (·.highWater)).getD 1

def StoredSessionRuntime.head {S : Type} (runtime : StoredSessionRuntime NativeState S) :
    Option NativeHead :=
  runtime.native.bind (·.head)

inductive NativeReservationDecision : Type
  | return (value : NativeReservation)
  | write (value : NativeReservation) (writes : NativeWrites)
  | reject (error : ServiceFailure)

def planNativeReservation (current : Versioned SessionRuntimeRecord) (id : String) (count : ℕ) :
    Option NativeReservation → NativeReservationDecision
  | some previous => if previous.count = count then .return previous else .reject nativeConflict
  | none =>
    let first := current.value.highWater + 1
    let last := first + count - 1
    if maxSafeInteger < last then .reject (.error "ID space is exhausted")
    else
      let value : NativeReservation := ⟨first, last, count⟩
      .write value [immutable (.ids id) value,
        replaceRuntime current { current.value with native := some ⟨last, current.value.head⟩ }]

inductive NativeCommitDecision : Type
  | return (head : NativeHead)
  | readExisting
  | write (head : NativeHead) (writes : NativeWrites)
  | reject (error : ServiceFailure)

/-- The commit of this name, if it has been looked for. -/
inductive ExistingCommit : Type
  | unread
  | read (value : Option NativeCommit)

def planNativeCommit (codec : NativeCodec) (current : Versioned SessionRuntimeRecord)
    (change : NativeCommit) (head : NativeHead) (existing : ExistingCommit) :
    NativeCommitDecision :=
  let attached := current.value.head
  if attached = some head then .return head
  else if attached ≠ change.parent then .reject nativeConflict
  else match existing with
    | .unread => .readExisting
    | .read value =>
      if ∃ found ∈ value, codec.nativeDigest found ≠ head.digest then .reject nativeConflict
      else .write head <|
        (if value.isSome then [] else [immutable (.commit change.commitId) change]) ++
          [replaceRuntime current { current.value with
            native := some ⟨max current.value.highWater change.idHighWater, some head⟩ }]

/-! ## The lease -/

/-- `/^[a-zA-Z0-9_-]{1,128}$/`. -/
def validName (s : String) : Bool :=
  1 ≤ s.length && s.length ≤ 128 && s.toList.all fun c ↦ c.isAlphanum || c = '_' || c = '-'

structure NativeLease where
  runId : String
  epoch : ℕ
deriving DecidableEq, Repr

/-- The record is that of the lease. -/
def NativeLease.Holds (lease : NativeLease) (runtime : SessionRuntimeRecord) : Prop :=
  runtime.closed = false ∧ runtime.runId = some lease.runId ∧ runtime.epoch.getD 0 = lease.epoch

instance (lease : NativeLease) (runtime : SessionRuntimeRecord) : Decidable (lease.Holds runtime) :=
  inferInstanceAs (Decidable (_ ∧ _))

namespace NativeLease

variable (codec : NativeCodec) (lease : NativeLease)

def active : NativeProg (Versioned SessionRuntimeRecord) := do
  match ← readNative .runtime with
  | none => throw nativeConflict
  | some current => if lease.Holds current.value then pure current else throw nativeConflict

def assertActive : NativeProg Unit := do
  let _ ← lease.active
  pure ()

/-- The commits from a head back to the first. Their numbers go down, so the number of the first one
bounds how many there are. -/
def walk : ℕ → Option NativeHead → List NativeCommit → NativeProg (List NativeCommit)
  | _, none, commits => pure commits
  | 0, some _, _ => throw (.error "Pi native history is not monotonic")
  | fuel + 1, some cursor, commits => do
    match ← readNative (.commit cursor.commitId) with
    | none => throw (.error "Pi native history is corrupt")
    | some found =>
      if found.value.seq ≠ cursor.seq ∨ codec.nativeDigest found.value ≠ cursor.digest then
        throw (.error "Pi native history is corrupt")
      else if ∃ parent ∈ found.value.parent, cursor.seq ≤ parent.seq then
        throw (.error "Pi native history is not monotonic")
      else walk fuel found.value.parent (found.value :: commits)

def load : NativeProg NativeImage := do
  let current ← lease.active
  let head := current.value.head
  let commits ← walk codec ((head.map (·.seq)).getD 0 + 1) head []
  pure ⟨head, current.value.highWater, commits⟩

/-- The name of the reservation of a request. -/
def reservationId (requestId : String) : String :=
  lease.runId ++ ":" ++ toString lease.epoch ++ ":" ++ requestId

def reserveAttempts (id : String) (count : ℕ) : ℕ → NativeProg NativeReservation
  | 0 => throw nativeConflict
  | attempts + 1 => do
    let current ← lease.active
    let previous ← readNative (.ids id)
    match planNativeReservation current id count (previous.map (·.value)) with
    | .reject error => throw error
    | .return value => pure value
    | .write value writes =>
      Prog.catching
        (do commitWrites writes
            pure value)
        fun error ↦ if attempts = 0 then throw error else reserveAttempts id count attempts

def reserveIds (count : ℕ) (requestId : String) : NativeProg NativeReservation :=
  if maxSafeInteger < count ∨ count < 1 ∨ 65536 < count ∨ validName requestId = false then
    throw (.error "Invalid native ID reservation")
  else reserveAttempts lease (lease.reservationId requestId) count 4

def headOf (change : NativeCommit) : NativeHead :=
  ⟨change.seq, change.commitId, codec.nativeDigest change⟩

/-- Carry out what was planned, or try again. -/
def settleCommit (retry : NativeProg NativeHead) (attempts : ℕ) :
    NativeCommitDecision → NativeProg NativeHead
  | .reject error => throw error
  | .return head => pure head
  | .readExisting => throw nativeConflict
  | .write head writes =>
    Prog.catching
      (do commitWrites writes
          pure head)
      fun error ↦ if attempts = 0 then throw error else retry

def commitAttempts (change : NativeCommit) : ℕ → NativeProg NativeHead
  | 0 => throw nativeConflict
  | attempts + 1 => do
    let current ← lease.active
    match planNativeCommit codec current change (headOf codec change) .unread with
    | .readExisting =>
      let existing ← readNative (.commit change.commitId)
      settleCommit (commitAttempts change attempts) attempts
        (planNativeCommit codec current change (headOf codec change)
          (.read (existing.map (·.value))))
    | plan => settleCommit (commitAttempts change attempts) attempts plan

def commit (change : NativeCommit) : NativeProg NativeHead :=
  if maxSafeInteger < change.idHighWater ∨ change.idHighWater < 1 ∨ maxSafeInteger < change.seq ∨
      change.seq ≠ (change.parent.map (·.seq)).getD 0 + 1 ∨ validName change.commitId = false then
    throw (.error "Invalid native commit")
  else if codec.byteLength change > 4 * 1024 * 1024 then
    throw (.error "Native commit exceeds 4 MiB")
  else commitAttempts codec lease change 4

end NativeLease

/-! ## The runtime record -/

namespace SessionRuntimeStore

def putRuntime (current : Versioned SessionRuntimeRecord) (value : SessionRuntimeRecord) :
    NativeProg Unit := commitWrites [replaceRuntime current value]

def claim (runId : String) (attempt : Option RuntimeAttempt) : NativeProg Unit := do
  let previous ← readNative .runtime
  if ∃ record ∈ previous, record.value.closed = true then
    throw (.api ⟨409, "The session harness has been closed.", some "conflict", none⟩)
  else commitWrites [⟨NativeKey.runtime, previous.revision,
    some (planClaim runId attempt (previous.map (·.value)))⟩]

def publish (runId snapshot : String) : NativeProg Bool := do
  match ← readNative .runtime with
  | none => pure false
  | some current =>
    if current.value.closed ∨ current.value.runId ≠ some runId then pure false
    else do
      putRuntime current { current.value with snapshot := some snapshot }
      pure true

/-- A publication is not due: there is another Run or another head, or it has been made. -/
def Outdated (runId : String) (seq : ℕ) (runtime : SessionRuntimeRecord) : Prop :=
  runtime.closed ∨ runtime.runId ≠ some runId ∨ runtime.head.map (·.seq) ≠ some seq ∨
    ∃ published ∈ runtime.projectionSeq, seq ≤ published

instance (runId : String) (seq : ℕ) (runtime : SessionRuntimeRecord) :
    Decidable (Outdated runId seq runtime) :=
  inferInstanceAs (Decidable (_ ∨ _))

def project (seq : ℕ) (snapshot : String) (runtime : SessionRuntimeRecord) : SessionRuntimeRecord :=
  { runtime with snapshot := some snapshot, projectionSeq := some seq }

section

-- How the store reports a write that it has rejected depends on the store.
variable (put : NativeWrites → NativeProg Unit)

def publishAttempts (runId : String) (seq : ℕ) (snapshot : String) : ℕ → NativeProg Bool
  | 0 => pure false
  | attempts + 1 => do
    match ← readNative .runtime with
    | none => pure false
    | some current =>
      if Outdated runId seq current.value then pure false
      else
        Prog.catching
          (do put [replaceRuntime current (project seq snapshot current.value)]
              pure true)
          fun error ↦ if error ≠ .api conflictError ∨ attempts = 0 then throw error
            else publishAttempts runId seq snapshot attempts

def publishNative (runId : String) (seq : ℕ) (snapshot : String) : NativeProg Bool :=
  publishAttempts put runId seq snapshot 10

end

def closeAttempts : ℕ → NativeProg Unit
  | 0 => throw (.api ⟨409, "The session harness changed concurrently.", some "conflict", none⟩)
  | attempts + 1 => do
    let current ← readNative .runtime
    if ∃ record ∈ current, record.value.closed = true then pure ()
    else
      Prog.catching
        (commitWrites [⟨NativeKey.runtime, current.revision,
          some (planRuntimeClosure (current.map (·.value)))⟩])
        fun error ↦ match error with
          | .api e => if e.status ≠ 409 ∨ attempts = 0 then throw error else closeAttempts attempts
          | .error _ => throw error

def close : NativeProg Unit := closeAttempts 10

def planRecovery (attempt : Option RuntimeAttempt) (recoveryExhausted : Bool)
    (value : SessionRuntimeRecord) : SessionRuntimeRecord :=
  { value with
    attempt := attempt <|> value.attempt
    recoveryExhausted := recoveryExhausted || value.recoveryExhausted }

/-- The recovery of a Run writes down when it tries again, or that it has given up. -/
def saveRecovery (attempt : Option RuntimeAttempt) (recoveryExhausted : Bool) :
    NativeProg Unit := do
  match ← readNative .runtime with
  | none => pure ()
  | some current =>
    if current.value.closed then pure ()
    else putRuntime current (planRecovery attempt recoveryExhausted current.value)

end SessionRuntimeStore

/-! ## The storage of Pi -/

/-- What a storage keeps in memory. `limit` is the id after the last one that is reserved. A
storage that has failed rejects every request that follows, so it is not there any more. -/
structure PiStorage where
  head : Option NativeHead
  highWater : ℕ
  next : ℕ
  limit : ℕ
deriving DecidableEq, Repr

namespace PiStorage

variable (codec : NativeCodec) (lease : NativeLease)

def mintId (storage : PiStorage) : NativeProg (ℕ × PiStorage) := do
  if storage.limit ≤ storage.next then do
    let requestId ← askNative .randomUUID
    let range ← lease.reserveIds 256 requestId
    pure (range.first, ⟨storage.head, range.last, range.first + 1, range.last + 1⟩)
  else pure (storage.next, { storage with next := storage.next + 1 })

/-- The greatest of the ids that are written, and `1`. -/
def storedMax (writes : List StorageWrite) : ℕ := (writes.map (·.id)).foldl max 1

def commit (storage : PiStorage) (writes : List StorageWrite) : NativeProg PiStorage := do
  let highWater := max storage.highWater (storedMax writes)
  let next := if storage.next ≤ storedMax writes then storedMax writes + 1 else storage.next
  let commitId ← askNative .randomUUID
  let head ← lease.commit codec
    ⟨commitId, storage.head, (storage.head.map (·.seq)).getD 0 + 1, highWater, writes⟩
  pure ⟨some head, highWater, next, storage.limit⟩

/-- The requests of Pi, one after the other. -/
def serve : ℕ → PiStorage → NativeProg Unit
  | 0, _ => pure ()
  | requests + 1, storage => do
    match ← askNative .nextRequest with
    | .close => pure ()
    | .mintId =>
      let (id, storage) ← mintId lease storage
      askNative (.minted id)
      serve requests storage
    | .commit writes =>
      let storage ← commit codec lease storage writes
      serve requests storage

end PiStorage

/-- Open a storage, and serve that many requests of it. -/
def openPiStorage (codec : NativeCodec) (lease : NativeLease) (requests : ℕ) : NativeProg Unit := do
  let image ← lease.load codec
  PiStorage.serve codec lease requests ⟨image.head, image.highWater, 0, 0⟩

/-! ## Calls -/

inductive NativeCall : Type
  | claim (runId : String) (attempt : Option RuntimeAttempt)
  | close
  | publish (runId snapshot : String)
  | publishNative (runId : String) (seq : ℕ) (snapshot : String)
  | saveRecovery (attempt : Option RuntimeAttempt) (recoveryExhausted : Bool)
  | assertActive (lease : NativeLease)
  | load (lease : NativeLease)
  | reserveIds (lease : NativeLease) (count : ℕ) (requestId : String)
  | commit (lease : NativeLease) (change : NativeCommit)
  | openPiStorage (lease : NativeLease) (requests : ℕ)
deriving DecidableEq, Repr

inductive NativeResult : Type
  | done
  | published (published : Bool)
  | image (image : NativeImage)
  | reserved (range : NativeReservation)
  | committed (head : NativeHead)
deriving DecidableEq, Repr

def nativeBody (codec : NativeCodec) : NativeCall → NativeProg NativeResult
  | .claim runId attempt => do
    SessionRuntimeStore.claim runId attempt
    pure .done
  | .close => do
    SessionRuntimeStore.close
    pure .done
  | .publish runId snapshot => do
    let published ← SessionRuntimeStore.publish runId snapshot
    pure (.published published)
  | .publishNative runId seq snapshot => do
    let published ← SessionRuntimeStore.publishNative commitWrites runId seq snapshot
    pure (.published published)
  | .saveRecovery attempt recoveryExhausted => do
    SessionRuntimeStore.saveRecovery attempt recoveryExhausted
    pure .done
  | .assertActive lease => do
    lease.assertActive
    pure .done
  | .load lease => do
    let image ← lease.load codec
    pure (.image image)
  | .reserveIds lease count requestId => do
    let range ← lease.reserveIds count requestId
    pure (.reserved range)
  | .commit lease change => do
    let head ← lease.commit codec change
    pure (.committed head)
  | .openPiStorage lease requests => do
    openPiStorage codec lease requests
    pure .done

end RatThings
