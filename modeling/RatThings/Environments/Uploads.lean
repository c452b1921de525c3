import Mathlib.Data.List.Basic
import Mathlib.Logic.Function.Basic
import Mathlib.Order.Nat

/-!
# Chunked uploads of environment files

The file worker of an environment stores an upload in chunks. Each chunk is written to a temporary
file beside the target; the handler of the last chunk compares the digest of what it has written and
renames the temporary file to the target. The worker keeps nothing between two requests: the size of
the temporary file says how far an upload has come.

Requests are handled at once, and between two steps of one handler any others may run. So the worker
is a transition system: a handler stands at the next call to the file system that it waits for, and
a step is the answer to one of these calls.
-/

namespace RatThings.EnvironmentFileWorker

/-! ## The disk -/

structure Inode where
  content : List UInt8
  nlink : ℕ

/-- The files of the workspace. A path is the list of its parts below the root. -/
structure Disk where
  names : List String → Option ℕ
  inodes : ℕ → Inode
  /-- The number of the next file. -/
  next : ℕ

/-- Replace the bytes from a position on, behind which zeros fill what is missing. -/
def overwrite (content : List UInt8) (position : ℕ) (bytes : List UInt8) : List UInt8 :=
  (content ++ List.replicate (position - content.length) 0).take position ++ bytes ++
    content.drop (position + bytes.length)

namespace Disk

/-- What a path shows. -/
def file (disk : Disk) (path : List String) : Option (List UInt8) :=
  (disk.names path).map fun inode ↦ (disk.inodes inode).content

/-- A new and empty file. -/
def create (disk : Disk) (path : List String) : Disk where
  names := Function.update disk.names path (some disk.next)
  inodes := Function.update disk.inodes disk.next ⟨[], 1⟩
  next := disk.next + 1

def write (disk : Disk) (inode position : ℕ) (bytes : List UInt8) : Disk :=
  let current := disk.inodes inode
  let changed := { current with content := overwrite current.content position bytes }
  { disk with inodes := Function.update disk.inodes inode changed }

/-- `fs.rm` with `force`: a path that does not exist is no error. -/
def rm (disk : Disk) (path : List String) : Disk :=
  match disk.names path with
  | none => disk
  | some inode =>
    let current := disk.inodes inode
    let unlinked := { current with nlink := current.nlink - 1 }
    { disk with
      names := Function.update disk.names path none
      inodes := Function.update disk.inodes inode unlinked }

/-- Two names of one file stay as they are. -/
def rename (disk : Disk) (source target : List String) : Option Disk :=
  match disk.names source with
  | none => none
  | some inode =>
    if disk.names target = some inode then some disk
    else
      let removed := disk.rm target
      some { removed with
        names := Function.update (Function.update removed.names source none) target (some inode) }

end Disk

/-! ## Requests -/

/-- The place of a path below the root. A path is given by its parts behind `/workspace/`. That no
part is a symbolic link is checked on the disk; such a check fails with its request. -/
def absolute (path : List String) : Option (List String) :=
  if path.any fun part ↦ part = "." || part = ".." || part.toList.contains '\x00' then none
  else if path = [] ∨ path = [""] then none
  else some (path.filter (· ≠ ""))

def isHex (character : Char) : Bool :=
  ('a' ≤ character && character ≤ 'f') || ('0' ≤ character && character ≤ '9')

/-- `/^[a-f0-9]{8}-[a-f0-9-]{27}$/`. -/
def isUploadId (uploadId : String) : Bool :=
  let characters := uploadId.toList
  characters.length = 36 && (characters.take 8).all isHex && characters[8]? = some '-' &&
    (characters.drop 9).all fun character ↦ isHex character || character = '-'

/-- `/^[a-f0-9]{64}$/`. -/
def isDigest (sha256 : String) : Bool :=
  sha256.toList.length = 64 && sha256.toList.all isHex

def temporaryOf (target : List String) (uploadId : String) : List String :=
  target.dropLast ++ [".rat-upload-" ++ uploadId]

structure Chunk where
  path : List String
  uploadId : String
  offset : ℕ
  data : List UInt8
  size : ℕ
  sha256 : String
deriving DecidableEq

inductive Operation : Type
  | writeChunk (chunk : Chunk)
  | writeAbort (path : List String) (uploadId : String)
deriving DecidableEq

namespace Operation

def path : Operation → List String
  | writeChunk chunk => chunk.path
  | writeAbort path _ => path

def uploadId : Operation → String
  | writeChunk chunk => chunk.uploadId
  | writeAbort _ uploadId => uploadId

def target (operation : Operation) : List String :=
  (absolute operation.path).getD []

def temporary (operation : Operation) : List String :=
  temporaryOf operation.target operation.uploadId

end Operation

namespace Chunk

def target (chunk : Chunk) : List String :=
  (Operation.writeChunk chunk).target

def temporary (chunk : Chunk) : List String :=
  (Operation.writeChunk chunk).temporary

/-- The checks of a chunk before any file is opened. -/
def valid (chunk : Chunk) : Bool :=
  isUploadId chunk.uploadId && (absolute chunk.path).isSome && isDigest chunk.sha256 &&
    chunk.size ≤ 50 * 1024 * 1024 && chunk.data.length ≤ 1024 * 1024 && chunk.data ≠ [] &&
    chunk.offset + chunk.data.length ≤ chunk.size

end Chunk

/-! ## Handlers -/

/-- What a handler waits for. -/
inductive Stage : Type
  /-- Its path, and for a chunk the temporary file. -/
  | received
  /-- The status of the file that it has opened. -/
  | opened (inode : ℕ)
  | writing (inode written : ℕ)
  /-- The bytes that the digest is still to read. -/
  | reading (inode : ℕ) (seen : List UInt8)
  | renaming (inode : ℕ)
  | finished (succeeded : Bool)
deriving DecidableEq

/-- The answer to a call: it fails, or it moves this many bytes where it moves any. -/
inductive Answer : Type
  | fails
  | moves (count : ℕ)
deriving DecidableEq

/-- What follows the last byte of a chunk. -/
def Chunk.written (chunk : Chunk) (inode : ℕ) : Stage :=
  if chunk.offset + chunk.data.length = chunk.size then .reading inode [] else .finished true

/-- One call of a `write_chunk` request. -/
def Chunk.advance (digest : List UInt8 → String) (disk : Disk) (chunk : Chunk) (count : ℕ) :
    Stage → Disk × Stage
  | .received =>
    if chunk.valid then
      match disk.names chunk.temporary with
      | some inode => (disk, .opened inode)
      | none =>
        if chunk.offset = 0 then (disk.create chunk.temporary, .opened disk.next)
        else (disk, .finished false)
    else (disk, .finished false)
  | .opened inode =>
    let current := disk.inodes inode
    if current.nlink ≠ 1 ∨ current.content.length < chunk.offset ∨
        chunk.offset + chunk.data.length < current.content.length then (disk, .finished false)
    else (disk, .writing inode 0)
  | .writing inode written =>
    let bytes := (chunk.data.drop written).take count
    if bytes = [] then (disk, .finished false)
    else
      (disk.write inode (chunk.offset + written) bytes,
        if written + bytes.length < chunk.data.length then .writing inode (written + bytes.length)
        else chunk.written inode)
  | .reading inode seen =>
    let content := (disk.inodes inode).content
    if seen.length < content.length then
      (disk, .reading inode (seen ++ (content.drop seen.length).take count))
    else if digest seen = chunk.sha256 then (disk, .renaming inode)
    else (disk, .finished false)
  | .renaming _ =>
    match disk.rename chunk.temporary chunk.target with
    | some disk => (disk, .finished true)
    | none => (disk, .finished false)
  | .finished succeeded => (disk, .finished succeeded)

/-- One call of a request. -/
def Operation.advance (digest : List UInt8 → String) (disk : Disk) (operation : Operation) :
    Stage → Answer → Disk × Stage
  | .finished succeeded, _ => (disk, .finished succeeded)
  | _, .fails => (disk, .finished false)
  | stage, .moves count =>
    match operation with
    | .writeChunk chunk => chunk.advance digest disk count stage
    | .writeAbort path uploadId =>
      if isUploadId uploadId && (absolute path).isSome then
        (disk.rm operation.temporary, .finished true)
      else (disk, .finished false)

/-- The worker, with every request it has received in their order. -/
structure Worker where
  disk : Disk
  handlers : List (Operation × Stage)

inductive Event : Type
  | received (operation : Operation)
  | resumed (index : ℕ) (answer : Answer)
deriving DecidableEq

def Worker.step (digest : List UInt8 → String) (worker : Worker) : Event → Worker
  | .received operation => { worker with handlers := worker.handlers ++ [(operation, .received)] }
  | .resumed index answer =>
    match worker.handlers[index]? with
    | none => worker
    | some (operation, stage) =>
      let (disk, stage) := operation.advance digest worker.disk stage answer
      { disk, handlers := worker.handlers.set index (operation, stage) }

/-! ## Writes -/

/-- Bytes of a whole that overwrite a beginning of it leave a beginning of it. -/
theorem overwrite_take (whole : List UInt8) {size position count : ℕ} (hposition : position ≤ size)
    (hcount : position + count ≤ whole.length) (hsize : size ≤ whole.length) :
    overwrite (whole.take size) position ((whole.drop position).take count) =
      whole.take (max size (position + count)) := by
  have hlength : ((whole.drop position).take count).length = count := by
    rw [List.length_take, List.length_drop]
    omega
  have hfirst : (whole.take size ++ List.replicate (position - (whole.take size).length) 0).take
      position = whole.take position := by
    rw [List.take_append_of_le_length (by rw [List.length_take]; omega), List.take_take,
      Nat.min_eq_left hposition]
  rw [overwrite, hfirst, hlength, ← List.take_add]
  rcases Nat.le_total size (position + count) with h | h
  · rw [Nat.max_eq_right h, List.drop_eq_nil_of_le (by rw [List.length_take]; omega),
      List.append_nil]
  · rw [Nat.max_eq_left h]
    have hbehind := List.take_append_drop (position + count) (whole.take size)
    rwa [List.take_take, Nat.min_eq_left h] at hbehind

namespace Disk

variable {disk : Disk}

theorem content_write (inode position : ℕ) (bytes : List UInt8) :
    ((disk.write inode position bytes).inodes inode).content =
      overwrite (disk.inodes inode).content position bytes := by
  simp [write]

theorem nlink_write (inode position : ℕ) (bytes : List UInt8) (other : ℕ) :
    ((disk.write inode position bytes).inodes other).nlink = (disk.inodes other).nlink := by
  by_cases h : other = inode
  · subst h
    simp [write]
  · simp [write, h]

theorem inodes_write_of_ne {inode other : ℕ} (h : other ≠ inode) (position : ℕ)
    (bytes : List UInt8) : (disk.write inode position bytes).inodes other = disk.inodes other := by
  simp [write, h]

theorem names_rm (path other : List String) :
    (disk.rm path).names other = if other = path then none else disk.names other := by
  rcases h : disk.names path with _ | inode
  · rw [rm, h]
    split_ifs with hother
    · rw [hother, h]
    · rfl
  · rw [rm, h]
    exact Function.update_apply _ _ _ _

theorem next_rm (path : List String) : (disk.rm path).next = disk.next := by
  rcases h : disk.names path with _ | inode <;> simp only [rm, h]

theorem content_rm (path : List String) (inode : ℕ) :
    ((disk.rm path).inodes inode).content = (disk.inodes inode).content := by
  rcases h : disk.names path with _ | removed
  · simp only [rm, h]
  · by_cases hinode : inode = removed
    · subst hinode
      simp [rm, h]
    · simp [rm, h, hinode]

theorem inodes_rm {path : List String} {inode : ℕ} (h : disk.names path ≠ some inode) :
    (disk.rm path).inodes inode = disk.inodes inode := by
  rcases hpath : disk.names path with _ | removed
  · simp only [rm, hpath]
  · have hinode : inode ≠ removed := fun hinode ↦ h (by rw [hpath, hinode])
    simp [rm, hpath, hinode]

/-- What a rename does: the target names the file of the source, and the source nothing, unless they
have named one file before. -/
theorem rename_eq_some {source target : List String} {renamed : Disk}
    (h : disk.rename source target = some renamed) :
    ∃ inode, disk.names source = some inode ∧
      (renamed = disk ∧ disk.names target = some inode ∨
        disk.names target ≠ some inode ∧ renamed.next = disk.next ∧
        renamed.inodes = (disk.rm target).inodes ∧
        ∀ path, renamed.names path =
          if path = target then some inode else if path = source then none
          else disk.names path) := by
  rcases hsource : disk.names source with _ | inode
  · rw [rename, hsource] at h
    exact absurd h nofun
  · rw [rename, hsource] at h
    dsimp only at h
    refine ⟨inode, rfl, ?_⟩
    by_cases htarget : disk.names target = some inode
    · rw [if_pos htarget] at h
      exact .inl ⟨(Option.some.inj h).symm, htarget⟩
    · rw [if_neg htarget] at h
      obtain rfl := Option.some.inj h
      refine .inr ⟨htarget, next_rm target, rfl, fun path ↦ ?_⟩
      dsimp only
      rw [Function.update_apply, Function.update_apply, names_rm]
      split_ifs <;> rfl

theorem rename_ne_none {source : List String} (target : List String) {inode : ℕ}
    (h : disk.names source = some inode) :
    ∃ renamed, disk.rename source target = some renamed := by
  rw [rename, h]
  dsimp only
  split_ifs
  · exact ⟨_, rfl⟩
  · exact ⟨_, rfl⟩

end Disk

/-! ## Uploads -/

/-- What is uploaded, and where. -/
structure Upload where
  path : List String
  content : List UInt8
  named : path ≠ []
  nonempty : content ≠ []
  bounded : content.length ≤ 50 * 1024 * 1024

variable (digest : List UInt8 → String) (uploads : String → Upload)

/-- A request of one of the uploads: a part of its content, of whatever division. -/
def Sends : Operation → Prop
  | .writeChunk chunk =>
    absolute chunk.path = some (uploads chunk.uploadId).path ∧
      chunk.data <+: (uploads chunk.uploadId).content.drop chunk.offset ∧
      chunk.size = (uploads chunk.uploadId).content.length ∧
      chunk.sha256 = digest (uploads chunk.uploadId).content
  | .writeAbort path uploadId => absolute path = some (uploads uploadId).path

def temporaryPath (uploadId : String) : List String :=
  temporaryOf (uploads uploadId).path uploadId

theorem temporaryPath_inj {uploadId other : String}
    (h : temporaryPath uploads uploadId = temporaryPath uploads other) : uploadId = other := by
  have hname := (List.append_inj' h rfl).2
  rw [List.singleton_inj] at hname
  exact (String.append_right_inj _).1 hname

variable {digest uploads}

theorem Sends.target {operation : Operation} (h : Sends digest uploads operation) :
    operation.target = (uploads operation.uploadId).path := by
  rcases operation with chunk | ⟨path, uploadId⟩
  · rw [Operation.target, Operation.path, h.1]
    rfl
  · rw [Operation.target, Operation.path, h]
    rfl

theorem Sends.temporary {operation : Operation} (h : Sends digest uploads operation) :
    operation.temporary = temporaryPath uploads operation.uploadId := by
  rw [Operation.temporary, h.target]
  rfl

end RatThings.EnvironmentFileWorker
