import Mathlib.Data.List.Infix
import RatThings.Environments.Uploads

/-!
# Uploads replace files as a whole

Requests of several uploads are handled at once, their chunks may be repeated and out of order, and
several uploads may have one target. Whatever the order, a file at a path that is no temporary one
is replaced by a whole upload or not at all.

## The invariant

Every file that a chunk is written to holds a beginning of its upload, whatever the order of the
requests and however they overlap: a chunk is only written where the file ends, or over bytes that
are there already (`DiskFits`). So a handler that has written the last byte has written the whole
content, and keeps it: later writes repeat bytes. The files are told apart by the upload that has
created them, which the disk does not record, so it is a map beside the disk.

## What is assumed

What the handler has checked is the file that it has opened, and what it renames is the temporary
path. The two agree unless another request has moved or removed the temporary path meanwhile
(`Undisturbed`). `Admits` asks this of the renames of a run, and that the requests are those of the
uploads.
-/

namespace RatThings.EnvironmentFileWorker

variable (digest : List UInt8 → String) (uploads : String → Upload)

/-- The files by the upload that has created them. -/
structure DiskFits (owner : ℕ → Option String) (disk : Disk) : Prop where
  below : ∀ path inode, disk.names path = some inode → inode < disk.next
  temporary : ∀ uploadId inode, disk.names (temporaryPath uploads uploadId) = some inode →
    owner inode = some uploadId
  begun : ∀ inode uploadId, inode < disk.next → owner inode = some uploadId →
    (disk.inodes inode).content <+: (uploads uploadId).content
  whole : ∀ path inode uploadId, (∀ other, path ≠ temporaryPath uploads other) →
    disk.names path = some inode → owner inode = some uploadId →
      path = (uploads uploadId).path ∧ (disk.inodes inode).content = (uploads uploadId).content

/-- The file that a handler has opened is one of its upload. -/
def Opened (owner : ℕ → Option String) (disk : Disk) (uploadId : String) (inode : ℕ) : Prop :=
  inode < disk.next ∧ owner inode = some uploadId

/-- What a handler knows of the file it has opened. -/
def Knows (owner : ℕ → Option String) (disk : Disk) : Operation → Stage → Prop
  | .writeAbort _ _, _ => True
  | .writeChunk chunk, .opened inode => Opened owner disk chunk.uploadId inode
  | .writeChunk chunk, .writing inode written => Opened owner disk chunk.uploadId inode ∧
    chunk.offset + written ≤ (disk.inodes inode).content.length
  | .writeChunk chunk, .reading inode seen => Opened owner disk chunk.uploadId inode ∧
    (disk.inodes inode).content = (uploads chunk.uploadId).content ∧
    seen <+: (uploads chunk.uploadId).content
  | .writeChunk chunk, .renaming inode => Opened owner disk chunk.uploadId inode ∧
    (disk.inodes inode).content = (uploads chunk.uploadId).content
  | .writeChunk _, _ => True

structure Fits (owner : ℕ → Option String) (worker : Worker) : Prop where
  disk : DiskFits uploads owner worker.disk
  sends : ∀ handler ∈ worker.handlers, Sends digest uploads handler.1
  knows : ∀ handler ∈ worker.handlers, Knows uploads owner worker.disk handler.1 handler.2

/-- Files are only created, and only grow. -/
structure Grows (owner : ℕ → Option String) (disk : Disk) (owner' : ℕ → Option String)
    (disk' : Disk) : Prop where
  next : disk.next ≤ disk'.next
  owner : ∀ inode < disk.next, owner' inode = owner inode
  content : ∀ inode < disk.next, (disk.inodes inode).content <+: (disk'.inodes inode).content

variable {digest uploads} {owner owner' : ℕ → Option String} {disk disk' : Disk}

theorem Grows.of_same (hnext : disk.next ≤ disk'.next)
    (howner : ∀ inode < disk.next, owner' inode = owner inode)
    (hcontent : ∀ inode < disk.next, (disk'.inodes inode).content = (disk.inodes inode).content) :
    Grows owner disk owner' disk' :=
  ⟨hnext, howner, fun inode hinode ↦ (hcontent inode hinode) ▸ List.prefix_rfl⟩

theorem Grows.refl : Grows owner disk owner disk :=
  .of_same le_rfl (fun _ _ ↦ rfl) fun _ _ ↦ rfl

theorem Opened.mono (hgrows : Grows owner disk owner' disk') {uploadId : String} {inode : ℕ}
    (h : Opened owner disk uploadId inode) : Opened owner' disk' uploadId inode :=
  ⟨h.1.trans_le hgrows.next, (hgrows.owner inode h.1).trans h.2⟩

/-- A file that holds the whole content keeps it. -/
theorem DiskFits.keeps (hfits : DiskFits uploads owner' disk')
    (hgrows : Grows owner disk owner' disk')
    {uploadId : String} {inode : ℕ} (h : Opened owner disk uploadId inode)
    (hwhole : (disk.inodes inode).content = (uploads uploadId).content) :
    (disk'.inodes inode).content = (uploads uploadId).content := by
  have hopened := h.mono hgrows
  have hbegun := hfits.begun inode uploadId hopened.1 hopened.2
  have hgrown := hgrows.content inode h.1
  rw [hwhole] at hgrown
  exact hbegun.eq_of_length_le hgrown.length_le

theorem Knows.mono (hfits : DiskFits uploads owner' disk') (hgrows : Grows owner disk owner' disk')
    {operation : Operation} {stage : Stage} (h : Knows uploads owner disk operation stage) :
    Knows uploads owner' disk' operation stage := by
  rcases operation with chunk | ⟨path, uploadId⟩
  · rcases stage with _ | inode | ⟨inode, written⟩ | ⟨inode, seen⟩ | inode | succeeded
    · trivial
    · exact Opened.mono hgrows h
    · exact ⟨h.1.mono hgrows, h.2.trans (hgrows.content inode h.1.1).length_le⟩
    · exact ⟨h.1.mono hgrows, hfits.keeps hgrows h.1 h.2.1, h.2.2⟩
    · exact ⟨h.1.mono hgrows, hfits.keeps hgrows h.1 h.2⟩
    · trivial
  · trivial

/-! ## The calls

What one call of a handler does to the disk, by the stage it is in. -/

/-- A path that is no temporary one. -/
def Lasting (uploads : String → Upload) (path : List String) : Prop :=
  ∀ uploadId, path ≠ temporaryPath uploads uploadId

theorem DiskFits.create (hfits : DiskFits uploads owner disk) (uploadId : String) :
    DiskFits uploads (Function.update owner disk.next (some uploadId))
      (disk.create (temporaryPath uploads uploadId)) ∧
    Grows owner disk (Function.update owner disk.next (some uploadId))
      (disk.create (temporaryPath uploads uploadId)) := by
  have hold : ∀ inode < disk.next,
      Function.update owner disk.next (some uploadId) inode = owner inode ∧
        (disk.create (temporaryPath uploads uploadId)).inodes inode = disk.inodes inode :=
    fun inode hinode ↦ ⟨Function.update_of_ne hinode.ne _ _, Function.update_of_ne hinode.ne _ _⟩
  have hnames : ∀ path, path ≠ temporaryPath uploads uploadId →
      (disk.create (temporaryPath uploads uploadId)).names path = disk.names path :=
    fun path hpath ↦ Function.update_of_ne hpath _ _
  have hself : (disk.create (temporaryPath uploads uploadId)).names
    (temporaryPath uploads uploadId) =
      some disk.next := Function.update_self _ _ _
  refine ⟨⟨?_, ?_, ?_, ?_⟩, .of_same (Nat.le_succ _) (fun inode hinode ↦ (hold inode hinode).1)
    fun inode hinode ↦ by rw [(hold inode hinode).2]⟩
  · intro path inode hinode
    by_cases hpath : path = temporaryPath uploads uploadId
    · rw [hpath, hself] at hinode
      obtain rfl := Option.some.inj hinode
      exact Nat.lt_succ_self _
    · rw [hnames path hpath] at hinode
      exact (hfits.below path inode hinode).trans (Nat.lt_succ_self _)
  · intro other inode hinode
    by_cases hother : temporaryPath uploads other = temporaryPath uploads uploadId
    · rw [hother, hself] at hinode
      obtain rfl := Option.some.inj hinode
      rw [temporaryPath_inj uploads hother, Function.update_self]
    · rw [hnames _ hother] at hinode
      rw [(hold inode (hfits.below _ inode hinode)).1]
      exact hfits.temporary other inode hinode
  · intro inode other hinode howner
    rcases Nat.lt_succ_iff_lt_or_eq.1 hinode with hlt | rfl
    · rw [(hold inode hlt).1] at howner
      rw [(hold inode hlt).2]
      exact hfits.begun inode other hlt howner
    · simp [Disk.create]
  · intro path inode other hpath hinode howner
    rw [hnames path (hpath uploadId)] at hinode
    have hlt := hfits.below path inode hinode
    rw [(hold inode hlt).1] at howner
    rw [(hold inode hlt).2]
    exact hfits.whole path inode other hpath hinode howner

/-- A part that is written behind the beginning of its upload, or over it. -/
theorem content_write_part {whole content bytes : List UInt8} {position : ℕ}
    (hcontent : content <+: whole)
    (hposition : position ≤ content.length) (hbytes : bytes <+: whole.drop position) :
    overwrite content position bytes =
      whole.take (max content.length (position + bytes.length)) := by
  have hlength := hbytes.length_le
  rw [List.length_drop] at hlength
  have hwhole := hcontent.length_le
  conv_lhs => rw [List.prefix_iff_eq_take.1 hcontent, List.prefix_iff_eq_take.1 hbytes]
  rw [overwrite_take whole hposition (by omega) hwhole]

theorem DiskFits.write (hfits : DiskFits uploads owner disk) {uploadId : String}
    {inode position : ℕ}
    {bytes : List UInt8} (hopened : Opened owner disk uploadId inode)
    (hposition : position ≤ (disk.inodes inode).content.length)
    (hbytes : bytes <+: (uploads uploadId).content.drop position) :
    DiskFits uploads owner (disk.write inode position bytes) ∧
      Grows owner disk owner (disk.write inode position bytes) := by
  have hbegun := hfits.begun inode uploadId hopened.1 hopened.2
  have hwritten := content_write_part hbegun hposition hbytes
  have hgrows : Grows owner disk owner (disk.write inode position bytes) := by
    refine ⟨le_rfl, fun _ _ ↦ rfl, fun other _ ↦ ?_⟩
    by_cases hother : other = inode
    · subst hother
      rw [Disk.content_write, hwritten]
      conv_lhs => rw [List.prefix_iff_eq_take.1 hbegun]
      exact List.take_prefix_take_left (Nat.le_max_left _ _)
    · rw [Disk.inodes_write_of_ne hother]
  refine ⟨⟨hfits.below, hfits.temporary, fun other otherId hlt howner ↦ ?_,
    fun path other otherId hpath hother howner ↦ ?_⟩, hgrows⟩
  · by_cases hother : other = inode
    · subst hother
      obtain rfl := Option.some.inj (hopened.2.symm.trans howner)
      rw [Disk.content_write, hwritten]
      exact List.take_prefix _ _
    · rw [Disk.inodes_write_of_ne hother]
      exact hfits.begun other otherId hlt howner
  · obtain ⟨hpath', hwhole⟩ := hfits.whole path other otherId hpath hother howner
    refine ⟨hpath', ?_⟩
    by_cases hother' : other = inode
    · subst hother'
      obtain rfl := Option.some.inj (hopened.2.symm.trans howner)
      have hlong := (hgrows.content other hopened.1).length_le
      rw [hwhole] at hlong
      rw [Disk.content_write, hwritten] at hlong ⊢
      exact (List.take_prefix _ _).eq_of_length_le hlong
    · rw [Disk.inodes_write_of_ne hother']
      exact hwhole

theorem DiskFits.rm (hfits : DiskFits uploads owner disk) (path : List String) :
    DiskFits uploads owner (disk.rm path) ∧ Grows owner disk owner (disk.rm path) := by
  have hnames : ∀ other inode, (disk.rm path).names other = some inode →
      disk.names other = some inode := by
    intro other inode h
    rw [Disk.names_rm] at h
    split_ifs at h
    exact h
  refine ⟨⟨fun other inode h ↦ ?_,
    fun uploadId inode h ↦ hfits.temporary uploadId inode (hnames _ _ h),
    fun inode uploadId hlt howner ↦ ?_, fun other inode uploadId hother h howner ↦ ?_⟩,
    .of_same (Disk.next_rm path).ge (fun _ _ ↦ rfl) fun inode _ ↦ Disk.content_rm path inode⟩
  · rw [Disk.next_rm]
    exact hfits.below other inode (hnames other inode h)
  · rw [Disk.next_rm] at hlt
    rw [Disk.content_rm]
    exact hfits.begun inode uploadId hlt howner
  · rw [Disk.content_rm]
    exact hfits.whole other inode uploadId hother (hnames other inode h) howner

/-- A rename of a temporary file that holds the whole content. -/
theorem DiskFits.rename (hfits : DiskFits uploads owner disk) {uploadId : String} {renamed : Disk}
    (hupload : Lasting uploads (uploads uploadId).path)
    (h : disk.rename (temporaryPath uploads uploadId) (uploads uploadId).path = some renamed)
    (hwhole : ∀ inode, disk.names (temporaryPath uploads uploadId) = some inode →
      (disk.inodes inode).content = (uploads uploadId).content) :
    DiskFits uploads owner renamed ∧ Grows owner disk owner renamed ∧
      renamed.file (uploads uploadId).path = some (uploads uploadId).content ∧
      ∀ path, Lasting uploads path → path ≠ (uploads uploadId).path →
        renamed.file path = disk.file path := by
  obtain ⟨inode, hinode, hrenamed⟩ := Disk.rename_eq_some h
  have hcontent := hwhole inode hinode
  rcases hrenamed with ⟨rfl, htarget⟩ | ⟨htarget, hnext, hinodes, hnames⟩
  · exact ⟨hfits, .refl, by rw [Disk.file, htarget, Option.map_some, hcontent], fun _ _ _ ↦ rfl⟩
  have hcontents : ∀ other, (renamed.inodes other).content = (disk.inodes other).content := by
    intro other
    rw [hinodes, Disk.content_rm]
  -- One file has another name now, and nothing else has a new one.
  have hcases : ∀ path other, renamed.names path = some other →
      path = (uploads uploadId).path ∧ other = inode ∨ disk.names path = some other := by
    intro path other hpath
    rw [hnames] at hpath
    split_ifs at hpath with hself
    · exact .inl ⟨hself, (Option.some.inj hpath).symm⟩
    · exact .inr hpath
  have howner := hfits.temporary uploadId inode hinode
  refine ⟨⟨fun path other hpath ↦ ?_, fun otherId other hpath ↦ ?_,
    fun other otherId hlt hother ↦ ?_,
    fun path other otherId hlasting hpath hother ↦ ?_⟩,
    .of_same hnext.ge (fun _ _ ↦ rfl) fun other _ ↦ hcontents other, ?_,
      fun path hlasting hpath ↦ ?_⟩
  · rw [hnext]
    rcases hcases path other hpath with ⟨-, rfl⟩ | hpath
    · exact hfits.below _ _ hinode
    · exact hfits.below _ _ hpath
  · rcases hcases _ other hpath with ⟨hself, rfl⟩ | hpath
    · exact absurd hself.symm (hupload otherId)
    · exact hfits.temporary otherId other hpath
  · rw [hnext] at hlt
    rw [hcontents]
    exact hfits.begun other otherId hlt hother
  · rw [hcontents]
    rcases hcases path other hpath with ⟨rfl, rfl⟩ | hpath
    · obtain rfl := Option.some.inj (howner.symm.trans hother)
      exact ⟨rfl, hcontent⟩
    · exact hfits.whole path other otherId hlasting hpath hother
  · rw [Disk.file, hnames, if_pos rfl, Option.map_some, hcontents, hcontent]
  · rw [Disk.file, Disk.file, hnames, if_neg hpath, if_neg (hlasting uploadId)]
    rcases disk.names path with _ | other
    · rfl
    · rw [Option.map_some, Option.map_some, hcontents]

/-! ## Steps

The calls of one request are followed until it ends. What lasts is changed by the rename alone. -/

/-- What one call does to the files that last: nothing, or the upload of the request is there as a
whole, and the request has succeeded. -/
def Replaces (uploads : String → Upload) (disk disk' : Disk) (operation : Operation)
    (stage : Stage) :
    Prop :=
  ∀ path, Lasting uploads path → disk'.file path = disk.file path ∨
    stage = .finished true ∧ path = (uploads operation.uploadId).path ∧
      disk'.file path = some (uploads operation.uploadId).content

/-- Files that keep their names change nothing that lasts. -/
theorem Replaces.of_names
    (hnames : ∀ path, Lasting uploads path → disk'.names path = disk.names path)
    (hcontent : ∀ path inode, Lasting uploads path → disk.names path = some inode →
      (disk'.inodes inode).content = (disk.inodes inode).content)
    (operation : Operation) (stage : Stage) : Replaces uploads disk disk' operation stage := by
  intro path hpath
  left
  rw [Disk.file, Disk.file, hnames path hpath]
  rcases hinode : disk.names path with _ | inode
  · rfl
  · rw [Option.map_some, Option.map_some, hcontent path inode hpath hinode]

theorem Replaces.refl (operation : Operation) (stage : Stage) :
    Replaces uploads disk disk operation stage := fun _ _ ↦ .inl rfl

/-- The temporary path of a request is still the file that its handler has opened, or nothing. -/
def Undisturbed (disk : Disk) (operation : Operation) : Stage → Prop
  | .renaming inode => ∀ found, disk.names operation.temporary = some found → found = inode
  | _ => True

/-- What a call leaves to all handlers. -/
def Advances (uploads : String → Upload) (owner : ℕ → Option String) (disk : Disk)
    (operation : Operation) (advanced : Disk × Stage) : Prop :=
  ∃ owner', DiskFits uploads owner' advanced.1 ∧ Grows owner disk owner' advanced.1 ∧
    Knows uploads owner' advanced.1 operation advanced.2 ∧
    Replaces uploads disk advanced.1 operation advanced.2

theorem Advances.quiet (hfits : DiskFits uploads owner disk) {operation : Operation} {stage : Stage}
    (hknows : Knows uploads owner disk operation stage) :
    Advances uploads owner disk operation (disk, stage) :=
  ⟨owner, hfits, .refl, hknows, .refl _ _⟩

theorem advances_finished (hfits : DiskFits uploads owner disk) (operation : Operation)
    (succeeded : Bool) : Advances uploads owner disk operation (disk, .finished succeeded) :=
  .quiet hfits (by rcases operation <;> trivial)

theorem advances_writeAbort (hfits : DiskFits uploads owner disk) {path : List String}
    {uploadId : String} (hsends : Sends digest uploads (.writeAbort path uploadId)) :
    Advances uploads owner disk (.writeAbort path uploadId)
      (disk.rm (Operation.writeAbort path uploadId).temporary, .finished true) := by
  obtain ⟨hrm, hgrows⟩ := hfits.rm (Operation.writeAbort path uploadId).temporary
  refine ⟨owner, hrm, hgrows, trivial, .of_names (fun other hother ↦ ?_) (fun _ _ _ _ ↦
    Disk.content_rm _ _) _ _⟩
  rw [Disk.names_rm, if_neg]
  rw [hsends.temporary]
  exact hother _

section

variable {chunk : Chunk} (hfits : DiskFits uploads owner disk)
  (hsends : Sends digest uploads (.writeChunk chunk)) (count : ℕ)

include hfits hsends

theorem advances_received :
    Advances uploads owner disk (.writeChunk chunk)
      (chunk.advance digest disk count .received) := by
  have htemporary : chunk.temporary = temporaryPath uploads chunk.uploadId := hsends.temporary
  rw [Chunk.advance]
  by_cases hvalid : chunk.valid = true
  · rw [if_pos hvalid]
    rcases hnames : disk.names chunk.temporary with _ | inode
    · dsimp only
      by_cases hoffset : chunk.offset = 0
      · rw [if_pos hoffset, htemporary]
        obtain ⟨hcreate, hgrows⟩ := hfits.create chunk.uploadId
        refine ⟨_, hcreate, hgrows, ⟨Nat.lt_succ_self _, Function.update_self _ _ _⟩,
          .of_names (fun path hpath ↦ Function.update_of_ne (hpath _) _ _)
            (fun path inode hpath hinode ↦ ?_) _ _⟩
        rw [Disk.create]
        dsimp only
        rw [Function.update_of_ne (hfits.below path inode hinode).ne]
      · rw [if_neg hoffset]
        exact advances_finished hfits _ _
    · rw [htemporary] at hnames
      exact .quiet hfits ⟨hfits.below _ _ hnames, hfits.temporary _ _ hnames⟩
  · rw [if_neg hvalid]
    exact advances_finished hfits _ _

omit hsends in
theorem advances_opened {inode : ℕ}
    (hknows : Knows uploads owner disk (.writeChunk chunk) (.opened inode)) :
    Advances uploads owner disk (.writeChunk chunk)
      (chunk.advance digest disk count (.opened inode)) := by
  rw [Chunk.advance]
  split_ifs with hstat
  · exact advances_finished hfits _ _
  · refine .quiet hfits ⟨hknows, ?_⟩
    omega

theorem advances_writing {inode written : ℕ}
    (hknows : Knows uploads owner disk (.writeChunk chunk) (.writing inode written)) :
    Advances uploads owner disk (.writeChunk chunk)
      (chunk.advance digest disk count (.writing inode written)) := by
  obtain ⟨hopened, hwritten⟩ := hknows
  obtain ⟨-, hdata, hsize, -⟩ := hsends
  rw [Chunk.advance]
  by_cases hbytes : (chunk.data.drop written).take count = []
  · rw [if_pos hbytes]
    exact advances_finished hfits _ _
  rw [if_neg hbytes]
  -- The bytes are a part of the upload, at or before the end of the file.
  generalize hpart : (chunk.data.drop written).take count = bytes
  have hbytes' : bytes <+: (uploads chunk.uploadId).content.drop (chunk.offset + written) := by
    rw [← hpart, ← List.drop_drop]
    exact (List.take_prefix _ _).trans (hdata.drop written)
  obtain ⟨hwrite, hgrows⟩ := hfits.write hopened hwritten hbytes'
  have hend : chunk.offset + written + bytes.length ≤
      ((disk.write inode (chunk.offset + written) bytes).inodes inode).content.length := by
    have hlength := hbytes'.length_le
    rw [List.length_drop] at hlength
    have hbegun := (hfits.begun inode _ hopened.1 hopened.2)
    have hbound := hbegun.length_le
    rw [Disk.content_write, content_write_part hbegun hwritten hbytes', List.length_take]
    omega
  have hnames : ∀ path, Lasting uploads path →
      (disk.write inode (chunk.offset + written) bytes).names path = disk.names path :=
    fun _ _ ↦ rfl
  refine ⟨owner, hwrite, hgrows, ?_, .of_names hnames (fun path other hpath hother ↦ ?_) _ _⟩
  · dsimp only
    split_ifs with hmore
    · exact ⟨hopened, by omega⟩
    · rw [Chunk.written]
      split_ifs with hlast
      · refine ⟨hopened, ?_, List.nil_prefix⟩
        refine (hwrite.begun inode _ hopened.1 hopened.2).eq_of_length_le ?_
        omega
      · trivial
  · by_cases hinode : other = inode
    · subst hinode
      have hwhole := (hfits.whole path other _ hpath hother hopened.2).2
      rw [hwrite.keeps hgrows hopened hwhole, hwhole]
    · rw [Disk.inodes_write_of_ne hinode]

omit hsends in
theorem advances_reading {inode : ℕ} {seen : List UInt8}
    (hknows : Knows uploads owner disk (.writeChunk chunk) (.reading inode seen)) :
    Advances uploads owner disk (.writeChunk chunk)
      (chunk.advance digest disk count (.reading inode seen)) := by
  obtain ⟨hopened, hwhole, hseen⟩ := hknows
  rw [Chunk.advance]
  split_ifs with hmore hdigest
  · refine .quiet hfits ⟨hopened, hwhole, ?_⟩
    rw [hwhole]
    conv_lhs => rw [List.prefix_iff_eq_take.1 hseen]
    rw [List.length_take_of_le hseen.length_le, ← List.take_add]
    exact List.take_prefix _ _
  · exact .quiet hfits ⟨hopened, hwhole⟩
  · exact advances_finished hfits _ _

theorem advances_renaming (hlasting : Lasting uploads (uploads chunk.uploadId).path) {inode : ℕ}
    (hknows : Knows uploads owner disk (.writeChunk chunk) (.renaming inode))
    (hundisturbed : Undisturbed disk (.writeChunk chunk) (.renaming inode)) :
    Advances uploads owner disk (.writeChunk chunk)
      (chunk.advance digest disk count (.renaming inode)) := by
  have htemporary : chunk.temporary = temporaryPath uploads chunk.uploadId := hsends.temporary
  have htarget : chunk.target = (uploads chunk.uploadId).path := hsends.target
  rw [Undisturbed] at hundisturbed
  rw [Chunk.advance, htemporary, htarget]
  rcases hrename : disk.rename (temporaryPath uploads chunk.uploadId)
    (uploads chunk.uploadId).path with
    _ | renamed
  · exact advances_finished hfits _ _
  · obtain ⟨hfits', hgrows, hself, hothers⟩ := hfits.rename hlasting hrename fun found hfound ↦ by
      rw [hundisturbed found ((congrArg disk.names htemporary).trans hfound)]
      exact hknows.2
    refine ⟨owner, hfits', hgrows, trivial, fun path hpath ↦ ?_⟩
    by_cases htargets : path = (uploads chunk.uploadId).path
    · subst htargets
      exact .inr ⟨rfl, rfl, hself⟩
    · exact .inl (hothers path hpath htargets)

end

theorem advance_fails {operation : Operation} {stage : Stage}
    (hstage : ∀ succeeded, stage ≠ .finished succeeded) :
    operation.advance digest disk stage .fails = (disk, .finished false) := by
  rcases stage with _ | _ | _ | _ | _ | succeeded
  all_goals first | rfl | exact absurd rfl (hstage succeeded)

theorem advance_chunk (chunk : Chunk) (stage : Stage) (count : ℕ) :
    (Operation.writeChunk chunk).advance digest disk stage (.moves count) =
      chunk.advance digest disk count stage := by
  rcases stage with _ | _ | _ | _ | _ | _ <;> rfl

theorem advance_writeAbort (path : List String) (uploadId : String) {stage : Stage}
    (hstage : ∀ succeeded, stage ≠ .finished succeeded) (count : ℕ) :
    (Operation.writeAbort path uploadId).advance digest disk stage (.moves count) =
      if isUploadId uploadId && (absolute path).isSome then
        (disk.rm (Operation.writeAbort path uploadId).temporary, .finished true)
      else (disk, .finished false) := by
  rcases stage with _ | _ | _ | _ | _ | succeeded
  all_goals first | rfl | exact absurd rfl (hstage succeeded)

theorem advance_finished (operation : Operation) (succeeded : Bool) (answer : Answer) :
    operation.advance digest disk (.finished succeeded) answer = (disk, .finished succeeded) := by
  rw [Operation.advance]

/-- One call of a handler keeps what all handlers rely on. -/
theorem advances (hlasting : ∀ uploadId, Lasting uploads (uploads uploadId).path)
    (hfits : DiskFits uploads owner disk) {operation : Operation} {stage : Stage} {answer : Answer}
    (hsends : Sends digest uploads operation) (hknows : Knows uploads owner disk operation stage)
    (hundisturbed : answer ≠ .fails → Undisturbed disk operation stage) :
    Advances uploads owner disk operation (operation.advance digest disk stage answer) := by
  by_cases hfinished : ∃ succeeded, stage = .finished succeeded
  · obtain ⟨succeeded, rfl⟩ := hfinished
    rw [advance_finished]
    exact advances_finished hfits _ _
  have hstage : ∀ succeeded, stage ≠ .finished succeeded := fun _ h ↦ hfinished ⟨_, h⟩
  rcases answer with _ | count
  · rw [advance_fails hstage]
    exact advances_finished hfits _ _
  rcases operation with chunk | ⟨path, uploadId⟩
  · rw [advance_chunk]
    rcases stage with _ | inode | ⟨inode, written⟩ | ⟨inode, seen⟩ | inode | succeeded
    · exact advances_received hfits hsends count
    · exact advances_opened hfits count hknows
    · exact advances_writing hfits hsends count hknows
    · exact advances_reading hfits count hknows
    · exact advances_renaming hfits hsends count (hlasting _) hknows (hundisturbed nofun)
    · exact absurd rfl (hstage succeeded)
  · rw [advance_writeAbort path uploadId hstage]
    split_ifs with hvalid
    · exact advances_writeAbort hfits hsends
    · exact advances_finished hfits _ _

/-! ## Runs

By induction on the admitted steps, with the map of owners growing as files are created. -/

/-- Requests are those of the uploads, and a rename finds the file that its handler has opened. -/
structure Admits (digest : List UInt8 → String) (uploads : String → Upload) (worker : Worker)
    (event : Event) : Prop where
  sends : ∀ operation, event = .received operation → Sends digest uploads operation
  undisturbed : ∀ index answer, event = .resumed index answer → answer ≠ .fails →
    ∀ operation stage, worker.handlers[index]? = some (operation, stage) →
      Undisturbed worker.disk operation stage

/-- What one step does to the files that last: nothing, or it ends a request successfully, and the
upload of this request is at its path as a whole. -/
def Worker.Replaces (uploads : String → Upload) (before after : Worker) (event : Event) : Prop :=
  ∀ path, Lasting uploads path → after.disk.file path = before.disk.file path ∨
    ∃ index answer operation, event = .resumed index answer ∧
      after.handlers[index]? = some (operation, .finished true) ∧
      path = (uploads operation.uploadId).path ∧
      after.disk.file path = some (uploads operation.uploadId).content

theorem step_resumed {worker : Worker} {index : ℕ} {operation : Operation} {stage : Stage}
    (h : worker.handlers[index]? = some (operation, stage)) (answer : Answer) :
    worker.step digest (.resumed index answer) =
      { disk := (operation.advance digest worker.disk stage answer).1
        handlers := worker.handlers.set index
          (operation, (operation.advance digest worker.disk stage answer).2) } := by
  rw [Worker.step, h]

theorem step_fits (hlasting : ∀ uploadId, Lasting uploads (uploads uploadId).path) {worker : Worker}
    (hfits : Fits digest uploads owner worker) {event : Event}
    (hadmits : Admits digest uploads worker event) :
    (∃ owner', Fits digest uploads owner' (worker.step digest event) ∧
      Grows owner worker.disk owner' (worker.step digest event).disk) ∧
    worker.Replaces uploads (worker.step digest event) event := by
  rcases event with operation | ⟨index, answer⟩
  · refine ⟨⟨owner, ⟨hfits.disk, fun handler hhandler ↦ ?_, fun handler hhandler ↦ ?_⟩, .refl⟩,
      fun _ _ ↦ .inl rfl⟩
    · rcases List.mem_append.1 hhandler with hhandler | hhandler
      · exact hfits.sends handler hhandler
      · rw [List.mem_singleton.1 hhandler]
        exact hadmits.sends operation rfl
    · rcases List.mem_append.1 hhandler with hhandler | hhandler
      · exact hfits.knows handler hhandler
      · rw [List.mem_singleton.1 hhandler]
        rcases operation <;> trivial
  · rcases hhandler : worker.handlers[index]? with _ | ⟨operation, stage⟩
    · rw [Worker.step, hhandler]
      exact ⟨⟨owner, hfits, .refl⟩, fun _ _ ↦ .inl rfl⟩
    have hmem := List.mem_of_getElem? hhandler
    obtain ⟨owner', hdisk, hgrows, hknows, hreplaces⟩ := advances hlasting hfits.disk
      (hfits.sends _ hmem) (hfits.knows _ hmem)
      (fun hanswer ↦ hadmits.undisturbed index answer rfl hanswer operation stage hhandler)
    rw [step_resumed hhandler]
    generalize operation.advance digest worker.disk stage answer = advanced at *
    refine ⟨⟨owner', ⟨hdisk, fun handler hset ↦ ?_, fun handler hset ↦ ?_⟩, hgrows⟩,
      fun path hpath ↦ ?_⟩
    · rcases List.mem_or_eq_of_mem_set hset with hset | rfl
      · exact hfits.sends handler hset
      · exact hfits.sends (operation, stage) hmem
    · rcases List.mem_or_eq_of_mem_set hset with hset | rfl
      · exact (hfits.knows handler hset).mono hdisk hgrows
      · exact hknows
    · rcases hreplaces path hpath with hsame | ⟨hstage, htarget, hfile⟩
      · exact .inl hsame
      · refine .inr ⟨index, answer, operation, rfl, ?_, htarget, hfile⟩
        dsimp only
        rw [List.getElem?_set_self (List.getElem?_eq_some_iff.1 hhandler).1, hstage]

/-- A worker that has received nothing, whose disk has no file of the uploads yet. -/
structure Opening (uploads : String → Upload) (worker : Worker) : Prop where
  handlers : worker.handlers = []
  below : ∀ path inode, worker.disk.names path = some inode → inode < worker.disk.next
  temporary : ∀ uploadId, worker.disk.names (temporaryPath uploads uploadId) = none

theorem Opening.fits {worker : Worker} (h : Opening uploads worker) :
    Fits digest uploads (fun _ ↦ none) worker where
  disk :=
    { below := h.below
      temporary := fun uploadId _ hinode ↦ absurd (hinode.symm.trans (h.temporary uploadId)) nofun
      begun := nofun
      whole := nofun }
  sends handler hhandler := absurd hhandler (by simp [h.handlers])
  knows handler hhandler := absurd hhandler (by simp [h.handlers])

variable (digest uploads) in
/-- The workers that are reached by admitted steps, in whatever order and overlap. -/
inductive Reachable (start : Worker) : Worker → Prop
  | start : Reachable start start
  | step {worker : Worker} (event : Event) (reachable : Reachable start worker)
      (admits : Admits digest uploads worker event) : Reachable start (worker.step digest event)

theorem Reachable.fits (hlasting : ∀ uploadId, Lasting uploads (uploads uploadId).path)
    {start worker : Worker} (hopening : Opening uploads start)
    (h : Reachable digest uploads start worker) : ∃ owner, Fits digest uploads owner worker := by
  induction h with
  | start => exact ⟨_, hopening.fits⟩
  | step event _ hadmits ih =>
    obtain ⟨owner, hfits⟩ := ih
    obtain ⟨⟨owner', hfits', -⟩, -⟩ := step_fits hlasting hfits hadmits
    exact ⟨owner', hfits'⟩

end RatThings.EnvironmentFileWorker
