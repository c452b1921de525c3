import RatThings.Environments.WholeUploads

/-!
# Repeated chunks of an upload

The chunks of an upload are sent in order, and each may be repeated before the next one is sent.
This module says which of the repetitions succeed, and what they leave on the disk.

## The construction

A `Division` cuts the content of an upload into parts, none empty, and `Division.request` is the
request of a part with its offset and its digest. A worker handles requests as its handlers take
step after step; `InOrder` are the workers that are reached when the next part, or the last one
again, is only sent after every request before it was answered.

Other uploads go on beside this one, also to the same path. They have temporary files of their own,
so all they take from this upload is the target, which they replace by a whole file
(`Division.Spares`).

## The invariant

The size of the temporary file lies within the chunk that is handled, from its first byte to behind
its last one (`Division.Partial`), so a repeated chunk is written again over the same bytes. What
holds at each stage of a request is `Division.Handling`, and every stage leads to the next one.

The last chunk moves the temporary file away. Its repetition finds nothing to open, unless it is the
first chunk as well and creates the temporary file again. `Retryable` says so of every worker that
is reached: a request fails exactly when it repeats the last of several parts, and it leaves the
target as it was.
-/

namespace RatThings.EnvironmentFileWorker

/-- An upload in parts, as a client sends it. -/
structure Division (uploads : String → Upload) where
  uploadId : String
  path : List String
  parts : List (List UInt8)
  identified : isUploadId uploadId = true
  named : absolute path = some (uploads uploadId).path
  whole : parts.flatten = (uploads uploadId).content
  small : ∀ part ∈ parts, part ≠ [] ∧ part.length ≤ 1024 * 1024

variable {uploads : String → Upload} (division : Division uploads)

namespace Division

def part (index : ℕ) : List UInt8 :=
  division.parts[index]?.getD []

def offset (index : ℕ) : ℕ :=
  (division.parts.take index).flatten.length

/-- The request of a part. -/
def request (digest : List UInt8 → String) (index : ℕ) : Chunk where
  path := division.path
  uploadId := division.uploadId
  offset := division.offset index
  data := division.part index
  size := (uploads division.uploadId).content.length
  sha256 := digest (uploads division.uploadId).content

def temporary : List String :=
  temporaryPath uploads division.uploadId

variable {division}

theorem offset_zero : division.offset 0 = 0 := by
  simp [offset]

theorem offset_length : division.offset division.parts.length =
    (uploads division.uploadId).content.length := by
  rw [offset, List.take_length, division.whole]

theorem offset_succ {index : ℕ} (h : index < division.parts.length) :
    division.offset (index + 1) = division.offset index + (division.part index).length := by
  rw [offset, offset, part, List.take_succ_eq_append_getElem h, List.flatten_append,
    List.length_append, List.flatten_singleton, List.getElem?_eq_getElem h]
  rfl

theorem content_take (index : ℕ) :
    (uploads division.uploadId).content.take (division.offset index) =
      (division.parts.take index).flatten := by
  have hsplit := congrArg List.flatten (List.take_append_drop index division.parts)
  rw [List.flatten_append, division.whole] at hsplit
  rw [← hsplit, offset, List.take_left]

theorem part_mem {index : ℕ} (h : index < division.parts.length) :
    division.part index ∈ division.parts := by
  rw [part, List.getElem?_eq_getElem h]
  exact List.getElem_mem h

theorem part_prefix {index : ℕ} (h : index < division.parts.length) :
    division.part index <+: (uploads division.uploadId).content.drop (division.offset index) := by
  have hsplit := congrArg List.flatten (List.take_append_drop index division.parts)
  rw [List.flatten_append, division.whole, List.drop_eq_getElem_cons h, List.flatten_cons] at hsplit
  rw [← hsplit, offset, List.drop_left, part, List.getElem?_eq_getElem h]
  exact List.prefix_append _ _

theorem offset_lt_succ {index : ℕ} (h : index < division.parts.length) :
    division.offset index < division.offset (index + 1) := by
  have hlength := List.length_pos_of_ne_nil (division.small _ (part_mem h)).1
  rw [offset_succ h]
  omega

theorem offset_lt {index other : ℕ} (h : index < other) (hother : other ≤ division.parts.length) :
    division.offset index < division.offset other := by
  induction other, h using Nat.le_induction with
  | base => exact offset_lt_succ hother
  | succ other h ih => exact (ih (by omega)).trans (offset_lt_succ hother)

theorem offset_le {index : ℕ} (h : index ≤ division.parts.length) :
    division.offset index ≤ (uploads division.uploadId).content.length := by
  rcases h.lt_or_eq with h | rfl
  · exact (offset_lt h le_rfl).le.trans offset_length.le
  · exact offset_length.le

/-- The last part is the one that ends the content. -/
theorem ends_iff {index : ℕ} (h : index < division.parts.length) :
    division.offset (index + 1) = (uploads division.uploadId).content.length ↔
      index + 1 = division.parts.length := by
  constructor
  · intro hends
    by_contra hne
    have hlt : division.offset (index + 1) < division.offset division.parts.length :=
      offset_lt (by omega) le_rfl
    rw [offset_length, hends] at hlt
    exact lt_irrefl _ hlt
  · intro hlast
    rw [hlast, offset_length]

theorem starts_iff {index : ℕ} (h : index < division.parts.length) :
    division.offset index = 0 ↔ index = 0 := by
  constructor
  · intro hstarts
    by_contra hne
    have hlt : division.offset 0 < division.offset index := offset_lt (Nat.pos_of_ne_zero hne) h.le
    omega
  · rintro rfl
    exact offset_zero

variable {digest : List UInt8 → String}

theorem request_inj {index other : ℕ} (hindex : index < division.parts.length)
    (hother : other < division.parts.length)
    (h : division.request digest index = division.request digest other) : index = other := by
  have hoffset : division.offset index = division.offset other := congrArg Chunk.offset h
  rcases Nat.lt_trichotomy index other with hlt | heq | hlt
  · exact absurd hoffset (offset_lt hlt hother.le).ne
  · exact heq
  · exact absurd hoffset.symm (offset_lt hlt hindex.le).ne

variable (digest) in
theorem sends_request {index : ℕ} (h : index < division.parts.length) :
    Sends digest uploads (.writeChunk (division.request digest index)) :=
  ⟨division.named, part_prefix h, rfl, rfl⟩

theorem request_valid (hdigest : ∀ bytes, isDigest (digest bytes) = true) {index : ℕ}
    (h : index < division.parts.length) : (division.request digest index).valid = true := by
  obtain ⟨hnonempty, hsmall⟩ := division.small _ (part_mem h)
  have hend : division.offset index + (division.part index).length ≤
      (uploads division.uploadId).content.length := by
    rw [← offset_succ h]
    exact offset_le h
  simp [Chunk.valid, request, division.identified, division.named, hdigest,
    (uploads division.uploadId).bounded, hsmall, hnonempty, hend]

end Division

/-! ## What the disk holds of an upload

Between two requests the disk is as `Division.Kept` says. A call of another upload does not touch
the temporary file, and to the target it can only do what this upload does: put a whole file
there. -/

/-- The temporary file, with a size between these two. -/
structure Division.Partial (disk : Disk) (inode least most : ℕ) : Prop where
  names : disk.names division.temporary = some inode
  sole : ∀ path, disk.names path = some inode → path = division.temporary
  nlink : (disk.inodes inode).nlink = 1
  least : least ≤ (disk.inodes inode).content.length
  most : (disk.inodes inode).content.length ≤ most

/-- The disk behind so many parts: there is a temporary file unless none or all are sent. -/
def Division.Kept (disk : Disk) (sent : ℕ) : Prop :=
  if sent = 0 ∨ sent = division.parts.length then disk.names division.temporary = none
  else ∃ inode, division.Partial disk inode (division.offset sent) (division.offset sent)

/-- The target is there as a whole, from this upload or another one to the same path. -/
def Division.Held (disk : Disk) : Prop :=
  ∃ other, (uploads other).path = (uploads division.uploadId).path ∧
    disk.file (uploads division.uploadId).path = some (uploads other).content

/-- What a call of another upload leaves of the temporary file. -/
structure Division.Spares (disk disk' : Disk) : Prop where
  names : ∀ inode, disk.names division.temporary = some inode →
    (∀ path, disk.names path = some inode → path = division.temporary) →
      disk'.inodes inode = disk.inodes inode ∧
        ∀ path, disk'.names path = some inode → path = division.temporary
  temporary : disk'.names division.temporary = disk.names division.temporary

variable {division} {digest : List UInt8 → String} {owner : ℕ → Option String} {disk disk' : Disk}

theorem Division.Held.step (hlasting : ∀ uploadId, Lasting uploads (uploads uploadId).path)
    {operation : Operation} {stage : Stage}
    (hreplaces : Replaces uploads disk disk' operation stage)
    (h : division.Held disk) : division.Held disk' := by
  obtain ⟨other, hpath, hfile⟩ := h
  rcases hreplaces _ (hlasting division.uploadId) with hsame | ⟨-, htarget, hfile'⟩
  · exact ⟨other, hpath, hsame.trans hfile⟩
  · exact ⟨operation.uploadId, htarget.symm, hfile'⟩

theorem Division.Partial.spare {inode least most : ℕ}
    (hspares : division.Spares disk disk')
    (h : division.Partial disk inode least most) : division.Partial disk' inode least most := by
  obtain ⟨hinode, hsole⟩ := hspares.names inode h.names h.sole
  exact ⟨hspares.temporary.trans h.names, hsole, by rw [hinode]; exact h.nlink,
    by rw [hinode]; exact h.least, by rw [hinode]; exact h.most⟩

theorem Division.Kept.spare {sent : ℕ} (hspares : division.Spares disk disk')
    (h : division.Kept disk sent) : division.Kept disk' sent := by
  rw [Division.Kept] at h ⊢
  split_ifs at h ⊢ with hsent
  · exact hspares.temporary.trans h
  · obtain ⟨inode, h⟩ := h
    exact ⟨inode, h.spare hspares⟩

theorem spares_refl : division.Spares disk disk :=
  ⟨fun _ _ hsole ↦ ⟨rfl, hsole⟩, rfl⟩

/-- What a call does to the disk. -/
theorem advance_effect (operation : Operation) (stage : Stage) (answer : Answer) :
    let advanced := operation.advance digest disk stage answer
    advanced.1 = disk ∨
    disk.names operation.temporary = none ∧ advanced.1 = disk.create operation.temporary ∨
    (∃ chunk inode written bytes, operation = .writeChunk chunk ∧ stage = .writing inode written ∧
      advanced.1 = disk.write inode (chunk.offset + written) bytes) ∨
    disk.rename operation.temporary operation.target = some advanced.1 ∨
    advanced.1 = disk.rm operation.temporary := by
  intro advanced
  by_cases hfinished : ∃ succeeded, stage = .finished succeeded
  · obtain ⟨succeeded, rfl⟩ := hfinished
    exact .inl (by rw [show advanced = _ from advance_finished operation succeeded answer])
  have hstage : ∀ succeeded, stage ≠ .finished succeeded := fun _ h ↦ hfinished ⟨_, h⟩
  rcases answer with _ | count
  · exact .inl (by rw [show advanced = _ from advance_fails hstage])
  rcases operation with chunk | ⟨path, uploadId⟩
  · rw [show advanced = _ from advance_chunk chunk stage count]
    rcases stage with _ | inode | ⟨inode, written⟩ | ⟨inode, seen⟩ | inode | succeeded
    · rw [Chunk.advance]
      by_cases hvalid : chunk.valid = true
      · rw [if_pos hvalid]
        rcases hnames : disk.names chunk.temporary with _ | inode
        · dsimp only
          by_cases hoffset : chunk.offset = 0
          · rw [if_pos hoffset]
            exact .inr (.inl ⟨hnames, rfl⟩)
          · rw [if_neg hoffset]
            exact .inl rfl
        · exact .inl rfl
      · rw [if_neg hvalid]
        exact .inl rfl
    · rw [Chunk.advance]
      split_ifs
      · exact .inl rfl
      · exact .inl rfl
    · rw [Chunk.advance]
      by_cases hbytes : (chunk.data.drop written).take count = []
      · rw [if_pos hbytes]
        exact .inl rfl
      · rw [if_neg hbytes]
        exact .inr (.inr (.inl ⟨chunk, inode, written, _, rfl, rfl, rfl⟩))
    · rw [Chunk.advance]
      split_ifs
      · exact .inl rfl
      · exact .inl rfl
      · exact .inl rfl
    · rw [Chunk.advance]
      rcases hrename : disk.rename chunk.temporary chunk.target with _ | renamed
      · exact .inl rfl
      · exact .inr (.inr (.inr (.inl hrename)))
    · exact absurd rfl (hstage succeeded)
  · rw [show advanced = _ from advance_writeAbort path uploadId hstage count]
    split_ifs
    · exact .inr (.inr (.inr (.inr rfl)))
    · exact .inl rfl

/-- The calls of other uploads leave the temporary file alone. -/
theorem spares_advance (hlasting : ∀ uploadId, Lasting uploads (uploads uploadId).path)
    (hfits : DiskFits uploads owner disk) {operation : Operation} {stage : Stage}
    (hsends : Sends digest uploads operation) (hknows : Knows uploads owner disk operation stage)
    (hother : operation.uploadId ≠ division.uploadId) (answer : Answer) :
    division.Spares disk (operation.advance digest disk stage answer).1 := by
  have htemporary : division.temporary ≠ operation.temporary := by
    rw [hsends.temporary]
    exact fun h ↦ hother (temporaryPath_inj uploads h).symm
  have howner : ∀ inode, disk.names division.temporary = some inode →
      owner inode = some division.uploadId := fun inode hinode ↦ hfits.temporary _ inode hinode
  -- A step does nothing, or creates, writes, renames or removes a file of its own upload.
  rcases advance_effect operation stage answer with hsame | ⟨hnone, hcreate⟩ |
    ⟨chunk, inode, written, bytes, rfl, rfl, hwrite⟩ | hrename | hrm
  · rw [hsame]
    exact spares_refl
  · rw [hcreate]
    refine ⟨fun inode hinode hsole ↦ ⟨?_, fun path hpath ↦ ?_⟩,
      Function.update_of_ne htemporary _ _⟩
    · exact Function.update_of_ne (hfits.below _ _ hinode).ne _ _
    · rw [Disk.create] at hpath
      dsimp only at hpath
      rw [Function.update_apply] at hpath
      split_ifs at hpath with hself
      · exact absurd (Option.some.inj hpath).symm (hfits.below _ _ hinode).ne
      · exact hsole path hpath
  · rw [hwrite]
    refine ⟨fun other hinode hsole ↦ ⟨?_, hsole⟩, rfl⟩
    refine Disk.inodes_write_of_ne (fun heq ↦ hother ?_) _ _
    subst heq
    exact Option.some.inj (hknows.1.2.symm.trans (howner other hinode))
  · obtain ⟨moved, hmoved, ⟨hsame, -⟩ | ⟨-, -, hinodes, hnames⟩⟩ := Disk.rename_eq_some hrename
    · rw [hsame]
      exact spares_refl
    have htarget : division.temporary ≠ operation.target := by
      rw [hsends.target]
      exact (hlasting _ _).symm
    refine ⟨fun inode hinode hsole ↦ ⟨?_, fun path hpath ↦ ?_⟩, ?_⟩
    · rw [hinodes]
      exact Disk.inodes_rm fun htargets ↦ htarget (hsole _ htargets).symm
    · rw [hnames] at hpath
      split_ifs at hpath with hself
      · obtain rfl := Option.some.inj hpath
        exact absurd (hsole _ hmoved) htemporary.symm
      · exact hsole path hpath
    · rw [hnames, if_neg htarget, if_neg htemporary]
  · rw [hrm]
    refine ⟨fun inode hinode hsole ↦ ⟨?_, fun path hpath ↦ ?_⟩, ?_⟩
    · exact Disk.inodes_rm fun hremoved ↦ htemporary (hsole _ hremoved).symm
    · rw [Disk.names_rm] at hpath
      split_ifs at hpath
      exact hsole path hpath
    · rw [Disk.names_rm, if_neg htemporary]

/-! ## The requests of one upload

One lemma for every stage a handler can be in. Each says what the next stage is and that what is
known of the stage holds of it, so the run lemma below only has to put them in a row. -/

variable (division) in
/-- What holds while the request of a part is handled, the first time or again. -/
def Division.Handling (again : Bool) (index : ℕ) (disk : Disk) : Stage → Prop
  | .received => division.Kept disk (if again then index + 1 else index)
  | .opened inode =>
    division.Partial disk inode (division.offset index) (division.offset (index + 1))
  | .writing inode written => written < (division.part index).length ∧
    division.Partial disk inode (division.offset index + written) (division.offset (index + 1))
  | .reading inode _ => index + 1 = division.parts.length ∧
    division.Partial disk inode (division.offset (index + 1)) (division.offset (index + 1))
  | .renaming inode => index + 1 = division.parts.length ∧
    division.Partial disk inode (division.offset (index + 1)) (division.offset (index + 1))
  | .finished _ => division.Kept disk (index + 1) ∧
    (index + 1 = division.parts.length → division.Held disk)

variable (division) in
/-- The repetition of a last part that is not the first one. -/
def Division.Repeats (again : Bool) (index : ℕ) : Prop :=
  index + 1 = division.parts.length ∧ index ≠ 0 ∧ again = true

theorem Division.Partial.mono {inode least most least' most' : ℕ}
    (h : division.Partial disk inode least most) (hleast : least' ≤ least) (hmost : most ≤ most') :
    division.Partial disk inode least' most' :=
  ⟨h.names, h.sole, h.nlink, hleast.trans h.least, h.most.trans hmost⟩

theorem Division.Partial.kept {inode sent : ℕ} (hsent : sent ≠ 0)
    (hless : sent ≠ division.parts.length)
    (h : division.Partial disk inode (division.offset sent) (division.offset sent)) :
    division.Kept disk sent := by
  rw [Division.Kept, if_neg (by simp [hsent, hless])]
  exact ⟨inode, h⟩

theorem partial_create (hfits : DiskFits uploads owner disk) (most : ℕ) :
    division.Partial (disk.create division.temporary) disk.next 0 most := by
  refine ⟨Function.update_self _ _ _, fun path hpath ↦ ?_, ?_, Nat.zero_le _, ?_⟩
  · rw [Disk.create] at hpath
    dsimp only at hpath
    by_contra hne
    rw [Function.update_of_ne hne] at hpath
    exact lt_irrefl _ (hfits.below path _ hpath)
  · simp [Disk.create]
  · simp [Disk.create]

/-- Writing to the temporary file changes no other path. -/
theorem Division.Partial.file_write {inode least most : ℕ}
    (h : division.Partial disk inode least most) {path : List String}
    (hpath : path ≠ division.temporary) (position : ℕ) (bytes : List UInt8) :
    (disk.write inode position bytes).file path = disk.file path := by
  have hnames : (disk.write inode position bytes).names path = disk.names path := rfl
  rw [Disk.file, Disk.file, hnames]
  refine Option.map_congr fun other hother ↦ ?_
  have hne : other ≠ inode := by
    rintro rfl
    exact hpath (h.sole path hother)
  rw [Disk.inodes_write_of_ne hne]

theorem Division.Handling.spare {again : Bool} {index : ℕ} {stage : Stage}
    (hspares : division.Spares disk disk') (h : division.Handling again index disk stage)
    (hunfinished : ∀ succeeded, stage ≠ .finished succeeded) :
    division.Handling again index disk' stage := by
  rcases stage with _ | inode | ⟨inode, written⟩ | ⟨inode, seen⟩ | inode | succeeded
  · exact Division.Kept.spare hspares h
  · exact Division.Partial.spare hspares h
  · exact ⟨h.1, h.2.spare hspares⟩
  · exact ⟨h.1, h.2.spare hspares⟩
  · exact ⟨h.1, h.2.spare hspares⟩
  · exact absurd rfl (hunfinished succeeded)

section

variable {index : ℕ} {again : Bool} (hfits : DiskFits uploads owner disk)
  (hindex : index < division.parts.length)

include hfits hindex

omit hfits in
theorem advance_received (hdigest : ∀ bytes, isDigest (digest bytes) = true) (count : ℕ) :
    (division.request digest index).advance digest disk count .received =
      match disk.names division.temporary with
      | some inode => (disk, .opened inode)
      | none => if division.offset index = 0 then
          (disk.create division.temporary, .opened disk.next) else (disk, .finished false) := by
  have htemporary : (division.request digest index).temporary = division.temporary :=
    (Division.sends_request digest hindex).temporary
  rw [Chunk.advance, if_pos (Division.request_valid hdigest hindex), htemporary]
  rfl

theorem handling_received (hdigest : ∀ bytes, isDigest (digest bytes) = true)
    (hheld : again = true → index + 1 = division.parts.length → division.Held disk)
    (h : division.Handling again index disk .received) (count : ℕ) :
    let advanced := (division.request digest index).advance digest disk count .received
    division.Handling again index advanced.1 advanced.2 ∧
      (division.Repeats again index → advanced.2 = .finished false) ∧
      (¬ division.Repeats again index → ∃ inode, advanced.2 = .opened inode) := by
  intro advanced
  have hadvanced : advanced = _ := advance_received hindex hdigest count
  have hlt := Division.offset_lt_succ hindex
  -- Without a temporary file, only the first part creates one.
  have hcreates : disk.names division.temporary = none → index = 0 →
      division.Handling again index advanced.1 advanced.2 ∧
        (division.Repeats again index → advanced.2 = .finished false) ∧
        (¬ division.Repeats again index → ∃ inode, advanced.2 = .opened inode) := by
    rintro hnone rfl
    rw [hadvanced, hnone]
    dsimp only
    rw [if_pos Division.offset_zero]
    refine ⟨?_, fun hrepeats ↦ absurd rfl hrepeats.2.1, fun _ ↦ ⟨_, rfl⟩⟩
    rw [Division.Handling, Division.offset_zero]
    exact partial_create hfits _
  have hopens : ∀ inode sent, index ≤ sent → sent ≤ index + 1 → ¬ division.Repeats again index →
      division.Partial disk inode (division.offset sent) (division.offset sent) →
      division.Handling again index advanced.1 advanced.2 ∧
        (division.Repeats again index → advanced.2 = .finished false) ∧
        (¬ division.Repeats again index → ∃ inode, advanced.2 = .opened inode) := by
    intro inode sent hleast hmost hrepeats hbetween
    rw [hadvanced, hbetween.names]
    refine ⟨?_, fun h ↦ absurd h hrepeats, fun _ ↦ ⟨inode, rfl⟩⟩
    obtain rfl | rfl : sent = index ∨ sent = index + 1 := by omega
    · exact hbetween.mono le_rfl hlt.le
    · exact hbetween.mono hlt.le le_rfl
  rw [Division.Handling] at h
  rcases again with _ | _
  · rw [if_neg (by decide : ¬ false = true), Division.Kept] at h
    by_cases hfirst : index = 0
    · rw [if_pos (.inl hfirst)] at h
      exact hcreates h hfirst
    · rw [if_neg (by omega)] at h
      obtain ⟨inode, hbetween⟩ := h
      exact hopens inode index le_rfl (Nat.le_succ _)
        (fun hrepeats ↦ absurd hrepeats.2.2 (by decide)) hbetween
  · rw [if_pos rfl] at h
    have hkept := h
    rw [Division.Kept] at h
    by_cases hlast : index + 1 = division.parts.length
    · rw [if_pos (.inr hlast)] at h
      by_cases hfirst : index = 0
      · exact hcreates h hfirst
      · rw [hadvanced, h]
        dsimp only
        rw [if_neg (mt (Division.starts_iff hindex).1 hfirst)]
        exact ⟨⟨hkept, hheld rfl⟩, fun _ ↦ rfl, fun hrepeats ↦ absurd ⟨hlast, hfirst, rfl⟩ hrepeats⟩
    · rw [if_neg (by omega)] at h
      obtain ⟨inode, hbetween⟩ := h
      exact hopens inode (index + 1) (Nat.le_succ _) le_rfl
        (fun hrepeats ↦ hlast hrepeats.1) hbetween

variable (digest) in
omit hfits in
theorem handling_opened {inode : ℕ} (h : division.Handling again index disk (.opened inode))
    (count : ℕ) :
    (division.request digest index).advance digest disk count (.opened inode) =
        (disk, .writing inode 0) ∧
      division.Handling again index disk (.writing inode 0) := by
  have hlength := List.length_pos_of_ne_nil (division.small _ (Division.part_mem hindex)).1
  have hmost := h.most
  rw [Division.offset_succ hindex] at hmost
  refine ⟨?_, hlength, h⟩
  rw [Chunk.advance]
  refine if_neg ?_
  rintro (hnlink | hleast | hmost')
  · exact hnlink h.nlink
  · exact absurd h.least (not_le.2 hleast)
  · exact absurd hmost (not_le.2 hmost')

/-- Bytes of a part bring the temporary file further, and not beyond the part. What is written
ends behind the file or within it. -/
theorem Division.Partial.write_part {inode written : ℕ} {bytes : List UInt8}
    (h : division.Partial disk inode (division.offset index + written)
      (division.offset (index + 1)))
    (hbytes : bytes <+:
      (uploads division.uploadId).content.drop (division.offset index + written))
    (hlength : written + bytes.length ≤ (division.part index).length) :
    division.Partial (disk.write inode (division.offset index + written) bytes) inode
      (division.offset index + written + bytes.length) (division.offset (index + 1)) := by
  have howned := hfits.temporary division.uploadId inode h.names
  have hbegun := hfits.begun inode _ (hfits.below _ _ h.names) howned
  have hnext := Division.offset_succ hindex
  have hmost := h.most
  have hsize :
      ((disk.write inode (division.offset index + written) bytes).inodes inode).content.length =
      max (disk.inodes inode).content.length (division.offset index + written + bytes.length) := by
    have hend := hbytes.length_le
    have hfile := hbegun.length_le
    have hplace : division.offset index + written + bytes.length ≤
        (uploads division.uploadId).content.length := by
      have hoffset : division.offset (index + 1) ≤ _ := Division.offset_le hindex
      omega
    rw [Disk.content_write, content_write_part hbegun h.least hbytes, List.length_take]
    omega
  refine ⟨h.names, h.sole, ?_, ?_, ?_⟩
  · rw [Disk.nlink_write, h.nlink]
  · rw [hsize]
    exact Nat.le_max_right _ _
  · rw [hsize]
    omega

variable (digest) in
theorem handling_writing {inode written : ℕ}
    (h : division.Handling again index disk (.writing inode written)) {count : ℕ}
    (hcount : 0 < count) :
    let advanced := (division.request digest index).advance digest disk count
      (.writing inode written)
    division.Handling again index advanced.1 advanced.2 ∧ advanced.2 ≠ .finished false := by
  intro advanced
  obtain ⟨hwritten, hbetween⟩ := h
  have hbytes : ((division.part index).drop written).take count ≠ [] := by
    rw [← List.length_pos_iff, List.length_take, List.length_drop]
    omega
  have hlength : (((division.part index).drop written).take count).length ≤
      (division.part index).length - written := by
    rw [List.length_take, List.length_drop]
    omega
  have hadvanced : advanced =
      (disk.write inode (division.offset index + written)
        (((division.part index).drop written).take count),
        if written + (((division.part index).drop written).take count).length <
            (division.part index).length then
          .writing inode (written + (((division.part index).drop written).take count).length)
        else (division.request digest index).written inode) := by
    simp only [advanced, Chunk.advance]
    exact if_neg hbytes
  have hprefix : ((division.part index).drop written).take count <+:
      (uploads division.uploadId).content.drop (division.offset index + written) := by
    rw [← List.drop_drop]
    exact (List.take_prefix _ _).trans ((Division.part_prefix hindex).drop written)
  rw [hadvanced]
  generalize ((division.part index).drop written).take count = bytes at *
  have hnext := Division.offset_succ hindex
  have hbetween' : division.Partial (disk.write inode (division.offset index + written) bytes) inode
      (division.offset index + written + bytes.length) (division.offset (index + 1)) :=
    hbetween.write_part hfits hindex hprefix (by omega)
  -- Either there is more of the part to write, or this was the end of it.
  by_cases hmore : written + bytes.length < (division.part index).length
  · rw [if_pos hmore]
    refine ⟨⟨hmore, hbetween'.mono (by omega) le_rfl⟩, fun h ↦ by contradiction⟩
  · rw [if_neg hmore, Chunk.written]
    have hwhole : division.Partial (disk.write inode (division.offset index + written) bytes) inode
        (division.offset (index + 1)) (division.offset (index + 1)) :=
      hbetween'.mono (by omega) le_rfl
    have hlast :
        (division.request digest index).offset + (division.request digest index).data.length =
        (division.request digest index).size ↔ index + 1 = division.parts.length := by
      rw [← Division.ends_iff hindex, hnext]
      rfl
    by_cases hends : index + 1 = division.parts.length
    · rw [if_pos (hlast.2 hends)]
      exact ⟨⟨hends, hwhole⟩, fun h ↦ by contradiction⟩
    · rw [if_neg (mt hlast.1 hends)]
      exact ⟨⟨hwhole.kept (Nat.succ_ne_zero _) hends, fun h ↦ absurd h hends⟩, by simp⟩

omit hfits hindex in
theorem handling_reading {inode : ℕ} {seen : List UInt8}
    (hknows : Knows uploads owner disk (.writeChunk (division.request digest index))
      (.reading inode seen))
    (h : division.Handling again index disk (.reading inode seen)) (count : ℕ) :
    let advanced := (division.request digest index).advance digest disk count (.reading inode seen)
    division.Handling again index advanced.1 advanced.2 ∧ advanced.2 ≠ .finished false := by
  intro advanced
  obtain ⟨-, hwhole, hseen⟩ := hknows
  simp only [advanced, Chunk.advance]
  by_cases hmore : seen.length < (disk.inodes inode).content.length
  · rw [if_pos hmore]
    exact ⟨h, (fun h ↦ by contradiction)⟩
  · have hread : seen = (uploads division.uploadId).content := by
      rw [hwhole] at hmore
      exact hseen.eq_of_length_le (not_lt.1 hmore)
    rw [if_neg hmore, if_pos (by rw [hread]; rfl)]
    exact ⟨h, (fun h ↦ by contradiction)⟩

theorem handling_renaming (hlasting : Lasting uploads (uploads division.uploadId).path) {inode : ℕ}
    (hknows : Knows uploads owner disk (.writeChunk (division.request digest index))
      (.renaming inode))
    (h : division.Handling again index disk (.renaming inode)) (count : ℕ) :
    let advanced := (division.request digest index).advance digest disk count (.renaming inode)
    division.Handling again index advanced.1 advanced.2 ∧ advanced.2 ≠ .finished false := by
  intro advanced
  obtain ⟨hlast, hbetween⟩ := h
  have htemporary : (division.request digest index).temporary = division.temporary :=
    (Division.sends_request digest hindex).temporary
  have htarget : (division.request digest index).target = (uploads division.uploadId).path :=
    (Division.sends_request digest hindex).target
  obtain ⟨renamed, hrenamed⟩ := Disk.rename_ne_none (uploads division.uploadId).path hbetween.names
  have hadvanced : advanced = (renamed, .finished true) := by
    simp only [advanced, Chunk.advance]
    rw [htemporary, htarget, hrenamed]
  have hself := (hfits.rename hlasting hrenamed fun found hfound ↦ by
    obtain rfl := Option.some.inj (hbetween.names.symm.trans hfound)
    exact hknows.2).2.2.1
  rw [hadvanced]
  refine ⟨⟨?_, fun _ ↦ ⟨division.uploadId, rfl, hself⟩⟩, by simp⟩
  rw [Division.Kept, if_pos (.inr hlast)]
  have hne : (uploads division.uploadId).path ≠ division.temporary := hlasting division.uploadId
  obtain ⟨moved, hmoved, ⟨-, htargets⟩ | ⟨-, -, -, hnames⟩⟩ := Disk.rename_eq_some hrenamed
  · obtain rfl := Option.some.inj (hbetween.names.symm.trans hmoved)
    exact absurd (hbetween.sole _ htargets) hne
  · rw [hnames, if_neg hne.symm, if_pos rfl]

/-- A call of the request of a part that is not the last one leaves the target as it was. -/
theorem target_of_not_last (hdigest : ∀ bytes, isDigest (digest bytes) = true)
    (hlasting : ∀ uploadId, Lasting uploads (uploads uploadId).path)
    (hlast : index + 1 ≠ division.parts.length) {stage : Stage}
    (h : division.Handling again index disk stage) (answer : Answer) :
    ((Operation.writeChunk (division.request digest index)).advance digest disk stage
      answer).1.file (uploads division.uploadId).path =
      disk.file (uploads division.uploadId).path := by
  have htarget : (uploads division.uploadId).path ≠ division.temporary :=
    hlasting division.uploadId division.uploadId
  by_cases hfinished : ∃ succeeded, stage = .finished succeeded
  · obtain ⟨succeeded, rfl⟩ := hfinished
    rw [advance_finished]
  rcases answer with _ | count
  · rw [advance_fails fun succeeded hstage ↦ hfinished ⟨succeeded, hstage⟩]
  rw [advance_chunk]
  rcases stage with _ | inode | ⟨inode, written⟩ | ⟨inode, seen⟩ | inode | succeeded
  · -- Opening the temporary file does not end the request successfully.
    obtain ⟨-, -, -, -, hreplaces⟩ :=
      advances_received hfits (Division.sends_request digest hindex) count
    rcases hreplaces _ (hlasting division.uploadId) with hsame | ⟨hsucceeds, -, -⟩
    · exact hsame
    · rw [advance_received hindex hdigest count] at hsucceeds
      split at hsucceeds
      · cases hsucceeds
      · split_ifs at hsucceeds
        cases hsucceeds
  · rw [(handling_opened digest hindex h count).1]
  · rw [Chunk.advance]
    split_ifs
    · rfl
    · exact h.2.file_write htarget _ _
    · exact h.2.file_write htarget _ _
  · exact absurd h.1 hlast
  · exact absurd h.1 hlast
  · exact absurd ⟨succeeded, rfl⟩ hfinished

/-- One call of the request of a part, which does not fail by itself. -/
theorem handling_advance (hdigest : ∀ bytes, isDigest (digest bytes) = true)
    (hlasting : Lasting uploads (uploads division.uploadId).path)
    (hheld : again = true → index + 1 = division.parts.length → division.Held disk)
    {stage : Stage} (hstage : ∀ succeeded, stage ≠ .finished succeeded)
    (hknows : Knows uploads owner disk (.writeChunk (division.request digest index)) stage)
    (hrepeats : stage ≠ .received → ¬ division.Repeats again index)
    (h : division.Handling again index disk stage) {count : ℕ} (hcount : 0 < count) :
    let advanced := (Operation.writeChunk (division.request digest index)).advance digest disk stage
      (.moves count)
    division.Handling again index advanced.1 advanced.2 ∧
      (division.Repeats again index → advanced.2 = .finished false) ∧
      (¬ division.Repeats again index → advanced.2 ≠ .finished false) := by
  intro advanced
  rw [show advanced = _ from advance_chunk _ stage count]
  rcases stage with _ | inode | ⟨inode, written⟩ | ⟨inode, seen⟩ | inode | succeeded
  · obtain ⟨hhandling, hfails, hopens⟩ := handling_received hfits hindex hdigest hheld h count
    refine ⟨hhandling, hfails, fun hrepeats ↦ ?_⟩
    obtain ⟨inode, hopened⟩ := hopens hrepeats
    rw [hopened]
    nofun
  · obtain ⟨hadvanced, hhandling⟩ := handling_opened digest hindex h count
    rw [hadvanced]
    exact ⟨hhandling, fun h ↦ absurd h (hrepeats nofun), fun _ ↦ nofun⟩
  · obtain ⟨hhandling, hfails⟩ := handling_writing digest hfits hindex h hcount
    exact ⟨hhandling, fun h ↦ absurd h (hrepeats nofun), fun _ ↦ hfails⟩
  · obtain ⟨hhandling, hfails⟩ := handling_reading hknows h count
    exact ⟨hhandling, fun h ↦ absurd h (hrepeats nofun), fun _ ↦ hfails⟩
  · obtain ⟨hhandling, hfails⟩ := handling_renaming hfits hindex hlasting hknows h count
    exact ⟨hhandling, fun h ↦ absurd h (hrepeats nofun), fun _ ↦ hfails⟩
  · exact absurd rfl (hstage succeeded)

end

/-! ## Runs

`Busy` is a worker with one request of the upload in progress, `Worker.Idle` one with none. A step
of a handler of another upload keeps both, and a step of this one's follows the stages. -/

/-- The requests in their order. -/
def Worker.operations (worker : Worker) : List Operation :=
  worker.handlers.map Prod.fst

/-- The request has come before. -/
def Repeated (operations : List Operation) (index : ℕ) (operation : Operation) : Prop :=
  ∃ earlier < index, operations[earlier]? = some operation

variable (division) in
/-- Every request of the upload has been answered. -/
def Worker.Idle (worker : Worker) : Prop :=
  ∀ handler ∈ worker.handlers, handler.1.uploadId = division.uploadId →
    ∃ succeeded, handler.2 = .finished succeeded

variable (digest division) in
/-- A step of a run in which the parts are sent in order: the next part, or the last sent one again,
is only sent when the requests before it have been answered. The calls of these requests do not fail
by themselves. The number counts the parts that have been sent. -/
inductive InOrderStep (worker : Worker) (sent : ℕ) : Event → ℕ → Prop
  | next (idle : worker.Idle division) (more : sent < division.parts.length) :
      InOrderStep worker sent (.received (.writeChunk (division.request digest sent))) (sent + 1)
  | again {part : ℕ} (idle : worker.Idle division) (last : sent = part + 1) :
      InOrderStep worker sent (.received (.writeChunk (division.request digest part))) sent
  | other (operation : Operation) (other : operation.uploadId ≠ division.uploadId) :
      InOrderStep worker sent (.received operation) sent
  | resumed (index : ℕ) (answer : Answer)
      (moves : ∀ operation stage, worker.handlers[index]? = some (operation, stage) →
        operation.uploadId = division.uploadId → ∃ count, 0 < count ∧ answer = .moves count) :
      InOrderStep worker sent (.resumed index answer) sent

variable (digest division) in
/-- The workers that are reached while the parts are sent in order, with the number of them. -/
inductive InOrder (start : Worker) : Worker → ℕ → Prop
  | start : InOrder start start 0
  | step {worker : Worker} {sent sent' : ℕ} {event : Event} (inOrder : InOrder start worker sent)
      (admits : Admits digest uploads worker event)
      (step : InOrderStep division digest worker sent event sent') :
      InOrder start (worker.step digest event) sent'

variable (digest division) in
/-- A request of a part is being handled, and no other one of the upload. -/
structure Busy (worker : Worker) (index part : ℕ) (stage : Stage) (again : Bool) : Prop where
  handler : worker.handlers[index]? = some (.writeChunk (division.request digest part), stage)
  unfinished : ∀ succeeded, stage ≠ .finished succeeded
  repeated : again = true ↔
    Repeated worker.operations index (.writeChunk (division.request digest part))
  held : again = true → part + 1 = division.parts.length → division.Held worker.disk
  stops : stage ≠ .received → ¬ division.Repeats again part
  handling : division.Handling again part worker.disk stage
  alone : ∀ (other : ℕ) handler, other ≠ index → worker.handlers[other]? = some handler →
    handler.1.uploadId = division.uploadId → ∃ succeeded, handler.2 = .finished succeeded

variable (digest division) in
/-- The requests of the upload so far: those that are answered have succeeded, unless they repeat
the last of several parts. -/
structure Answered (worker : Worker) (sent : ℕ) : Prop where
  within : sent ≤ division.parts.length
  parts : ∀ (index : ℕ) operation, worker.operations[index]? = some operation →
    operation.uploadId = division.uploadId →
      ∃ part < sent, operation = .writeChunk (division.request digest part)
  all : ∀ part < sent, ∃ index : ℕ,
    worker.operations[index]? = some (.writeChunk (division.request digest part))
  outcome : ∀ (index : ℕ) part succeeded, part < division.parts.length →
    worker.handlers[index]? =
      some (.writeChunk (division.request digest part), .finished succeeded) →
      (succeeded = false ↔ part + 1 = division.parts.length ∧ part ≠ 0 ∧
        Repeated worker.operations index (.writeChunk (division.request digest part)))

variable (division) in
/-- The disk when every request has been answered. -/
def Settled (disk : Disk) (sent : ℕ) : Prop :=
  division.Kept disk sent ∧ (sent = division.parts.length → division.Held disk)

variable (digest division) in
def Tracked (worker : Worker) (sent : ℕ) : Prop :=
  Answered division digest worker sent ∧
    (worker.Idle division ∧ Settled division worker.disk sent ∨
      ∃ index part stage again,
        sent = part + 1 ∧ Busy division digest worker index part stage again)

theorem operations_received (worker : Worker) (operation : Operation) :
    (worker.step digest (.received operation)).operations = worker.operations ++ [operation] := by
  rw [Worker.step, Worker.operations, Worker.operations, List.map_append, List.map_singleton]

theorem set_same {α : Type} {items : List α} {index : ℕ} {item : α}
    (h : items[index]? = some item) :
    items.set index item = items := by
  obtain ⟨hindex, rfl⟩ := List.getElem?_eq_some_iff.1 h
  exact List.set_getElem_self hindex

theorem operations_resumed (worker : Worker) (index : ℕ) (answer : Answer) :
    (worker.step digest (.resumed index answer)).operations = worker.operations := by
  rcases hhandler : worker.handlers[index]? with _ | ⟨operation, stage⟩
  · rw [Worker.step, hhandler]
  · rw [step_resumed hhandler, Worker.operations, Worker.operations, List.map_set]
    exact set_same (by simp [hhandler])

theorem repeated_append {operations : List Operation} {index : ℕ} (h : index ≤ operations.length)
    (operation added : Operation) :
    Repeated (operations ++ [added]) index operation ↔ Repeated operations index operation := by
  constructor
  · rintro ⟨earlier, hearlier, hoperation⟩
    rw [List.getElem?_append_left (by omega)] at hoperation
    exact ⟨earlier, hearlier, hoperation⟩
  · rintro ⟨earlier, hearlier, hoperation⟩
    refine ⟨earlier, hearlier, ?_⟩
    rw [List.getElem?_append_left (by omega)]
    exact hoperation

theorem length_operations (worker : Worker) : worker.operations.length = worker.handlers.length :=
  List.length_map _

theorem getElem?_operations {worker : Worker} {index : ℕ} {handler : Operation × Stage}
    (h : worker.handlers[index]? = some handler) : worker.operations[index]? = some handler.1 := by
  rw [Worker.operations, List.getElem?_map, h]
  rfl

section

variable {worker : Worker} {sent : ℕ}

theorem handlers_received {operation : Operation} {index : ℕ} {handler : Operation × Stage}
    (h : (worker.step digest (.received operation)).handlers[index]? = some handler) :
    worker.handlers[index]? = some handler ∨
      index = worker.handlers.length ∧ handler = (operation, .received) := by
  rw [Worker.step] at h
  dsimp only at h
  rcases Nat.lt_or_ge index worker.handlers.length with hlt | hge
  · rw [List.getElem?_append_left hlt] at h
    exact .inl h
  · rw [List.getElem?_append_right hge, List.getElem?_singleton] at h
    split_ifs at h with hindex
    exact .inr ⟨by omega, (Option.some.inj h).symm⟩

theorem Answered.received (h : Answered division digest worker sent) {operation : Operation}
    {sent' : ℕ}
    (hsent : sent ≤ sent') (hwithin : sent' ≤ division.parts.length)
    (hpart : operation.uploadId = division.uploadId →
      ∃ part < sent', operation = .writeChunk (division.request digest part))
    (hall : ∀ part < sent', sent ≤ part → operation = .writeChunk (division.request digest part)) :
    Answered division digest (worker.step digest (.received operation)) sent' := by
  refine ⟨hwithin, fun index other hother hmine ↦ ?_, fun part hlt ↦ ?_,
    fun index part succeeded hlt hhandler ↦ ?_⟩
  · rw [operations_received] at hother
    rcases Nat.lt_or_ge index worker.operations.length with hindex | hindex
    · rw [List.getElem?_append_left hindex] at hother
      obtain ⟨part, hlt, hpart⟩ := h.parts index other hother hmine
      exact ⟨part, hlt.trans_le hsent, hpart⟩
    · rw [List.getElem?_append_right hindex, List.getElem?_singleton] at hother
      split_ifs at hother
      obtain rfl := Option.some.inj hother
      exact hpart hmine
  · rw [operations_received]
    rcases Nat.lt_or_ge part sent with hpart | hpart
    · obtain ⟨index, hindex⟩ := h.all part hpart
      have hlength := (List.getElem?_eq_some_iff.1 hindex).1
      exact ⟨index, by rw [List.getElem?_append_left hlength, hindex]⟩
    · exact ⟨worker.operations.length, by rw [hall part hlt hpart, List.getElem?_concat_length]⟩
  · rw [operations_received]
    rcases handlers_received hhandler with hold | ⟨-, hnew⟩
    · have hlength := (List.getElem?_eq_some_iff.1 hold).1
      rw [repeated_append (by rw [length_operations]; exact hlength.le)]
      exact h.outcome index part succeeded hlt hold
    · exact absurd (congrArg Prod.snd hnew) nofun

theorem Busy.received {index part : ℕ} {stage : Stage} {again : Bool}
    (h : Busy division digest worker index part stage again) {operation : Operation}
    (hother : operation.uploadId ≠ division.uploadId) :
    Busy division digest (worker.step digest (.received operation)) index part stage again := by
  have hlength := (List.getElem?_eq_some_iff.1 h.handler).1
  refine ⟨?_, h.unfinished, ?_, h.held, h.stops, h.handling,
    fun other handler hne hhandler hmine ↦ ?_⟩
  · rw [Worker.step]
    dsimp only
    rw [List.getElem?_append_left hlength, h.handler]
  · rw [operations_received, repeated_append (by rw [length_operations]; exact hlength.le)]
    exact h.repeated
  · rcases handlers_received hhandler with hold | ⟨-, rfl⟩
    · exact h.alone other handler hne hold hmine
    · exact absurd hmine hother

theorem Worker.Idle.received (h : worker.Idle division) {operation : Operation}
    (hother : operation.uploadId ≠ division.uploadId) :
    (worker.step digest (.received operation)).Idle division := by
  intro handler hhandler hmine
  rcases List.mem_append.1 hhandler with hhandler | hhandler
  · exact h handler hhandler hmine
  · rw [List.mem_singleton.1 hhandler] at hmine
    exact absurd hmine hother

/-- The request of a part is received while nothing else is handled. -/
theorem Worker.Idle.busy (h : worker.Idle division) {part : ℕ} {again : Bool}
    (hrepeated : again = true ↔ .writeChunk (division.request digest part) ∈ worker.operations)
    (hkept : division.Kept worker.disk (if again then part + 1 else part))
    (hheld : again = true → part + 1 = division.parts.length → division.Held worker.disk) :
    Busy division digest
      (worker.step digest (.received (.writeChunk (division.request digest part))))
      worker.handlers.length part .received again := by
  refine ⟨?_, nofun, ?_, hheld, fun h ↦ absurd rfl h, hkept,
    fun other handler hne hhandler hmine ↦ ?_⟩
  · rw [Worker.step]
    exact List.getElem?_concat_length
  · rw [operations_received, repeated_append (length_operations worker).ge, hrepeated,
      List.mem_iff_getElem?]
    constructor
    · rintro ⟨earlier, hearlier⟩
      have hlength := (List.getElem?_eq_some_iff.1 hearlier).1
      exact ⟨earlier, by rwa [length_operations] at hlength, hearlier⟩
    · rintro ⟨earlier, -, hearlier⟩
      exact ⟨earlier, hearlier⟩
  · rcases handlers_received hhandler with hold | ⟨hindex, -⟩
    · exact h handler (List.mem_of_getElem? hold) hmine
    · exact absurd hindex hne

/-- A resumed handler is there with its new stage, and the others as they were. -/
theorem handlers_resumed {index other : ℕ} {operation : Operation} {stage : Stage} {answer : Answer}
    {handler : Operation × Stage} (hhandler : worker.handlers[index]? = some (operation, stage))
    (h : (worker.step digest (.resumed index answer)).handlers[other]? = some handler) :
    other = index ∧ handler = (operation, (operation.advance digest worker.disk stage answer).2) ∨
      other ≠ index ∧ worker.handlers[other]? = some handler := by
  rw [step_resumed hhandler] at h
  dsimp only at h
  by_cases hother : other = index
  · subst hother
    rw [List.getElem?_set_self (List.getElem?_eq_some_iff.1 hhandler).1] at h
    exact .inl ⟨rfl, (Option.some.inj h).symm⟩
  · rw [List.getElem?_set_ne (Ne.symm hother)] at h
    exact .inr ⟨hother, h⟩

theorem Answered.resumed (h : Answered division digest worker sent) {index : ℕ}
    {operation : Operation}
    {stage : Stage} {answer : Answer} (hhandler : worker.handlers[index]? = some (operation, stage))
    (houtcome : ∀ part succeeded, part < division.parts.length →
      operation = .writeChunk (division.request digest part) →
      (operation.advance digest worker.disk stage answer).2 = .finished succeeded →
      (succeeded = false ↔ part + 1 = division.parts.length ∧ part ≠ 0 ∧
        Repeated worker.operations index (.writeChunk (division.request digest part)))) :
    Answered division digest (worker.step digest (.resumed index answer)) sent := by
  refine ⟨h.within, ?_, ?_, fun other part succeeded hlt hother ↦ ?_⟩
  · rw [operations_resumed]
    exact h.parts
  · rw [operations_resumed]
    exact h.all
  · rw [operations_resumed]
    rcases handlers_resumed hhandler hother with ⟨rfl, hnew⟩ | ⟨-, hold⟩
    · exact houtcome part succeeded hlt (congrArg Prod.fst hnew).symm (congrArg Prod.snd hnew).symm
    · exact h.outcome other part succeeded hlt hold

/-- A step of another upload. -/
theorem Tracked.resumed_other (hlasting : ∀ uploadId, Lasting uploads (uploads uploadId).path)
    (hfits : Fits digest uploads owner worker) (h : Tracked division digest worker sent)
    {index : ℕ} {operation : Operation} {stage : Stage} {answer : Answer}
    (hhandler : worker.handlers[index]? = some (operation, stage))
    (hother : operation.uploadId ≠ division.uploadId)
    (hundisturbed : answer ≠ .fails → Undisturbed worker.disk operation stage) :
    Tracked division digest (worker.step digest (.resumed index answer)) sent := by
  have hmem := List.mem_of_getElem? hhandler
  obtain ⟨-, -, -, -, hreplaces⟩ := advances hlasting hfits.disk (hfits.sends _ hmem)
    (hfits.knows _ hmem) hundisturbed
  have hspares : division.Spares worker.disk
      (operation.advance digest worker.disk stage answer).1 :=
    spares_advance hlasting hfits.disk (hfits.sends _ hmem) (hfits.knows _ hmem) hother answer
  have hheld : division.Held worker.disk →
      division.Held (worker.step digest (.resumed index answer)).disk := by
    rw [step_resumed hhandler]
    exact fun hheld ↦ hheld.step hlasting hreplaces
  have hdisk : (worker.step digest (.resumed index answer)).disk =
      (operation.advance digest worker.disk stage answer).1 := by rw [step_resumed hhandler]
  refine ⟨h.1.resumed hhandler fun part _ _ hpart ↦ ?_, ?_⟩
  · exact absurd (congrArg Operation.uploadId hpart) hother
  rcases h.2 with ⟨hidle, hkept, htarget⟩ | ⟨current, part, currentStage, again, hsent, hbusy⟩
  · refine .inl ⟨fun handler hhandler' hmine ↦ ?_, ?_, fun hlast ↦ hheld (htarget hlast)⟩
    · obtain ⟨other, hget⟩ := List.mem_iff_getElem?.1 hhandler'
      rcases handlers_resumed hhandler hget with ⟨-, rfl⟩ | ⟨-, hold⟩
      · exact absurd hmine hother
      · exact hidle handler (List.mem_of_getElem? hold) hmine
    · rw [hdisk]
      exact hkept.spare hspares
  · have hne : current ≠ index := by
      rintro rfl
      obtain ⟨rfl, -⟩ := Prod.ext_iff.1 (Option.some.inj (hhandler.symm.trans hbusy.handler))
      exact hother rfl
    refine .inr ⟨current, part, currentStage, again, hsent, ⟨?_, hbusy.unfinished, ?_,
      fun hagain hlast ↦ hheld (hbusy.held hagain hlast), hbusy.stops, ?_,
      fun other handler hother' hget hmine ↦ ?_⟩⟩
    · rw [step_resumed hhandler]
      dsimp only
      rw [List.getElem?_set_ne hne.symm, hbusy.handler]
    · rw [operations_resumed]
      exact hbusy.repeated
    · rw [hdisk]
      exact hbusy.handling.spare hspares hbusy.unfinished
    · rcases handlers_resumed hhandler hget with ⟨-, rfl⟩ | ⟨-, hold⟩
      · exact absurd hmine hother
      · exact hbusy.alone other handler hother' hold hmine

/-- The file that is renamed is the one that the handler has opened. -/
theorem Busy.undisturbed {index part : ℕ} {stage : Stage} {again : Bool}
    (h : Busy division digest worker index part stage again)
    (hpart : part < division.parts.length) :
    Undisturbed worker.disk (.writeChunk (division.request digest part)) stage := by
  have hhandling := h.handling
  rcases stage with _ | inode | ⟨inode, written⟩ | ⟨inode, seen⟩ | inode | succeeded
  · trivial
  · trivial
  · trivial
  · trivial
  · intro found hfound
    rw [(Division.sends_request digest hpart).temporary] at hfound
    exact (Option.some.inj (hhandling.2.names.symm.trans hfound)).symm
  · trivial

/-- A step of the request that is being handled. -/
theorem Tracked.resumed_own (hdigest : ∀ bytes, isDigest (digest bytes) = true)
    (hlasting : ∀ uploadId, Lasting uploads (uploads uploadId).path)
    (hfits : Fits digest uploads owner worker) (h : Answered division digest worker sent)
    {index part : ℕ} {stage : Stage} {again : Bool} (hsent : sent = part + 1)
    (hbusy : Busy division digest worker index part stage again) {count : ℕ} (hcount : 0 < count) :
    Tracked division digest (worker.step digest (.resumed index (.moves count))) sent := by
  have hmem := List.mem_of_getElem? hbusy.handler
  have hpart : part < division.parts.length := by
    have hwithin := h.within
    omega
  obtain ⟨-, -, -, -, hreplaces⟩ : Advances uploads owner worker.disk _
      ((Operation.writeChunk (division.request digest part)).advance digest worker.disk stage
        (.moves count)) :=
    advances hlasting hfits.disk (hfits.sends _ hmem) (hfits.knows _ hmem)
      fun _ ↦ hbusy.undisturbed hpart
  obtain ⟨hhandling, hfails, hsucceeds⟩ := handling_advance hfits.disk hpart hdigest (hlasting _)
    hbusy.held hbusy.unfinished (hfits.knows _ hmem) hbusy.stops hbusy.handling hcount
  have hstep := @step_resumed digest _ _ _ _ hbusy.handler (.moves count)
  have hrepeats : division.Repeats again part ↔ part + 1 = division.parts.length ∧ part ≠ 0 ∧
      Repeated worker.operations index (.writeChunk (division.request digest part)) := by
    rw [Division.Repeats, hbusy.repeated]
  generalize hadvanced : (Operation.writeChunk (division.request digest part)).advance digest
    worker.disk stage (.moves count) = advanced at *
  have hanswered : Answered division digest
      (worker.step digest (.resumed index (.moves count))) sent := by
    refine h.resumed hbusy.handler fun other succeeded hother hrequest hfinished ↦ ?_
    obtain rfl := Division.request_inj hpart hother (Operation.writeChunk.inj hrequest)
    rw [hadvanced] at hfinished
    rw [← hrepeats]
    constructor
    · rintro rfl
      by_contra hnot
      exact hsucceeds hnot hfinished
    · intro hrepeat
      exact (Stage.finished.inj (hfinished.symm.trans (hfails hrepeat)))
  refine ⟨hanswered, ?_⟩
  -- Either this step answers the request, or the handler is busy with it still.
  by_cases hfinished : ∃ succeeded, advanced.2 = .finished succeeded
  · obtain ⟨succeeded, hfinished⟩ := hfinished
    rw [hfinished] at hhandling
    refine .inl ⟨fun handler hhandler hmine ↦ ?_, ?_⟩
    · obtain ⟨other, hget⟩ := List.mem_iff_getElem?.1 hhandler
      rcases handlers_resumed hbusy.handler hget with ⟨-, rfl⟩ | ⟨hne, hold⟩
      · exact ⟨succeeded, by rw [hadvanced, hfinished]⟩
      · exact hbusy.alone other handler hne hold hmine
    · rw [hstep, hsent]
      exact hhandling
  · refine .inr ⟨index, part, advanced.2, again, hsent, ⟨?_, fun succeeded h ↦ hfinished ⟨_, h⟩, ?_,
      fun hagain hlast ↦ ?_, fun _ hrepeat ↦ ?_, ?_, fun other handler hne hget hmine ↦ ?_⟩⟩
    · rw [hstep]
      exact List.getElem?_set_self (List.getElem?_eq_some_iff.1 hbusy.handler).1
    · rw [operations_resumed]
      exact hbusy.repeated
    · rw [hstep]
      exact (hbusy.held hagain hlast).step hlasting hreplaces
    · exact hfinished ⟨_, hfails hrepeat⟩
    · rw [hstep]
      exact hhandling
    · rcases handlers_resumed hbusy.handler hget with ⟨heq, -⟩ | ⟨-, hold⟩
      · exact absurd heq hne
      · exact hbusy.alone other handler hne hold hmine

/-- A handler that is not there, or has ended, does nothing. -/
theorem step_ended {index : ℕ}
    (h : ∀ operation stage, worker.handlers[index]? = some (operation, stage) →
      ∃ succeeded, stage = .finished succeeded) (answer : Answer) :
    worker.step digest (.resumed index answer) = worker := by
  rcases hhandler : worker.handlers[index]? with _ | ⟨operation, stage⟩
  · rw [Worker.step, hhandler]
  · obtain ⟨succeeded, rfl⟩ := h operation stage hhandler
    rw [step_resumed hhandler, advance_finished, set_same hhandler]

/-- While nothing is handled, the disk is settled. -/
theorem Tracked.settled (h : Tracked division digest worker sent) (hidle : worker.Idle division) :
    Settled division worker.disk sent := by
  obtain ⟨-, ⟨-, hsettled⟩ | ⟨index, part, stage, again, -, hbusy⟩⟩ := h
  · exact hsettled
  · obtain ⟨succeeded, hfinished⟩ := hidle _ (List.mem_of_getElem? hbusy.handler) rfl
    exact absurd hfinished (hbusy.unfinished succeeded)

/-- A call for the upload changes its target only where the request is that of the last part, and
only to the content. -/
theorem Tracked.target (hdigest : ∀ bytes, isDigest (digest bytes) = true)
    (hlasting : ∀ uploadId, Lasting uploads (uploads uploadId).path)
    (hfits : Fits digest uploads owner worker) (h : Tracked division digest worker sent)
    {index : ℕ} {chunk : Chunk} {stage : Stage}
    (hhandler : worker.handlers[index]? = some (.writeChunk chunk, stage))
    (hmine : chunk.uploadId = division.uploadId) (answer : Answer) :
    (worker.step digest (.resumed index answer)).disk.file (uploads division.uploadId).path =
        worker.disk.file (uploads division.uploadId).path ∨
      chunk.offset + chunk.data.length = chunk.size ∧
        (worker.step digest (.resumed index answer)).disk.file (uploads division.uploadId).path =
          some (uploads division.uploadId).content := by
  by_cases hended : ∃ succeeded, stage = .finished succeeded
  · obtain ⟨succeeded, rfl⟩ := hended
    rw [step_resumed hhandler, advance_finished]
    exact .inl rfl
  obtain ⟨hanswered, hphase⟩ := h
  rcases hphase with ⟨hidle, -⟩ | ⟨current, part, stage', again, hsent, hbusy⟩
  · exact absurd (hidle _ (List.mem_of_getElem? hhandler) hmine) hended
  have hcurrent : index = current := by
    by_contra hne
    exact hended (hbusy.alone index _ hne hhandler hmine)
  subst hcurrent
  obtain ⟨hchunk, rfl⟩ := Prod.ext_iff.mp (Option.some.inj (hhandler.symm.trans hbusy.handler))
  obtain rfl := Operation.writeChunk.inj hchunk
  have hmem := List.mem_of_getElem? hhandler
  have hpart : part < division.parts.length := by
    have hwithin := hanswered.within
    omega
  by_cases hlast : part + 1 = division.parts.length
  · obtain ⟨-, -, -, -, hreplaces⟩ : Advances uploads owner worker.disk _
        ((Operation.writeChunk (division.request digest part)).advance digest worker.disk stage
          answer) :=
      advances hlasting hfits.disk (hfits.sends _ hmem) (hfits.knows _ hmem)
        fun _ ↦ hbusy.undisturbed hpart
    rw [step_resumed hhandler]
    rcases hreplaces _ (hlasting division.uploadId) with hsame | ⟨-, -, hfile⟩
    · exact .inl hsame
    · refine .inr ⟨?_, hfile⟩
      have hends := (Division.ends_iff hpart).mpr hlast
      rwa [Division.offset_succ hpart] at hends
  · rw [step_resumed hhandler]
    exact .inl (target_of_not_last hfits.disk hpart hdigest hlasting hlast hbusy.handling answer)

theorem Tracked.step (hdigest : ∀ bytes, isDigest (digest bytes) = true)
    (hlasting : ∀ uploadId, Lasting uploads (uploads uploadId).path)
    (hfits : Fits digest uploads owner worker) (h : Tracked division digest worker sent)
    {event : Event} (hadmits : Admits digest uploads worker event) {sent' : ℕ}
    (hstep : InOrderStep division digest worker sent event sent') :
    Tracked division digest (worker.step digest event) sent' := by
  have hsettled := h.settled
  obtain ⟨hanswered, hphase⟩ := h
  rcases hstep with ⟨hidle, hmore⟩ | @⟨part, hidle, hlast⟩ | ⟨operation, hother⟩ |
    ⟨index, answer, hmoves⟩
  · refine ⟨hanswered.received (Nat.le_succ _) hmore (fun _ ↦ ⟨sent, Nat.lt_succ_self _, rfl⟩)
      (fun part hlt hge ↦ by rw [show part = sent by omega]), .inr ⟨_, sent, _, false, rfl,
        hidle.busy (iff_of_false nofun fun hmem ↦ ?_) (hsettled hidle).1 nofun⟩⟩
    -- The requests so far are of earlier parts.
    obtain ⟨index, hindex⟩ := List.mem_iff_getElem?.1 hmem
    obtain ⟨part, hlt, hpart⟩ := hanswered.parts index _ hindex rfl
    exact absurd (Division.request_inj hmore (hlt.trans hmore)
      (Operation.writeChunk.inj hpart)) hlt.ne'
  · subst hlast
    obtain ⟨hkept, hheld⟩ := hsettled hidle
    obtain ⟨index, hindex⟩ := hanswered.all part (Nat.lt_succ_self _)
    exact ⟨hanswered.received le_rfl hanswered.within (fun _ ↦ ⟨part, Nat.lt_succ_self _, rfl⟩)
      (fun other hlt hge ↦ by omega), .inr ⟨_, part, _, true, rfl,
        hidle.busy (iff_of_true rfl (List.mem_of_getElem? hindex)) hkept fun _ ↦ hheld⟩⟩
  · refine ⟨hanswered.received le_rfl hanswered.within (fun hmine ↦ absurd hmine hother)
      (fun other hlt hge ↦ by omega), ?_⟩
    rcases hphase with ⟨hidle, hsettled⟩ | ⟨index, part, stage, again, hsent, hbusy⟩
    · exact .inl ⟨hidle.received hother, hsettled⟩
    · exact .inr ⟨index, part, stage, again, hsent, hbusy.received hother⟩
  · by_cases hended : ∀ operation stage, worker.handlers[index]? = some (operation, stage) →
        ∃ succeeded, stage = .finished succeeded
    · rw [step_ended hended]
      exact ⟨hanswered, hphase⟩
    push Not at hended
    obtain ⟨operation, stage, hhandler, hunfinished⟩ := hended
    by_cases hmine : operation.uploadId = division.uploadId
    · obtain ⟨count, hcount, rfl⟩ := hmoves operation stage hhandler hmine
      rcases hphase with ⟨hidle, -⟩ | ⟨current, part, currentStage, again, hsent, hbusy⟩
      · obtain ⟨succeeded, hfinished⟩ := hidle _ (List.mem_of_getElem? hhandler) hmine
        exact absurd hfinished (hunfinished succeeded)
      · by_cases hcurrent : index = current
        · subst hcurrent
          exact Tracked.resumed_own hdigest hlasting hfits hanswered hsent hbusy hcount
        · obtain ⟨succeeded, hfinished⟩ := hbusy.alone index _ hcurrent hhandler hmine
          exact absurd hfinished (hunfinished succeeded)
    · exact Tracked.resumed_other hlasting hfits ⟨hanswered, hphase⟩ hhandler hmine
        fun hanswer ↦ hadmits.undisturbed index answer rfl hanswer operation stage hhandler

theorem Opening.tracked {start : Worker} (h : Opening uploads start) :
    Tracked division digest start 0 := by
  have hoperations : start.operations = [] := by
    rw [Worker.operations, h.handlers, List.map_nil]
  refine ⟨⟨Nat.zero_le _, fun index operation hget ↦ ?_, nofun,
    fun index part succeeded _ hget ↦ ?_⟩,
    .inl ⟨fun handler hhandler ↦ ?_, ?_, fun hempty ↦ ?_⟩⟩
  · rw [hoperations] at hget
    exact absurd hget nofun
  · rw [h.handlers] at hget
    exact absurd hget nofun
  · rw [h.handlers] at hhandler
    exact absurd hhandler List.not_mem_nil
  · rw [Division.Kept, if_pos (.inl rfl)]
    exact h.temporary _
  · have hcontent := division.whole
    rw [List.eq_nil_of_length_eq_zero hempty.symm] at hcontent
    exact absurd hcontent.symm (uploads division.uploadId).nonempty

theorem InOrder.tracked (hdigest : ∀ bytes, isDigest (digest bytes) = true)
    (hlasting : ∀ uploadId, Lasting uploads (uploads uploadId).path) {start : Worker}
    (hopening : Opening uploads start) (h : InOrder division digest start worker sent) :
    Tracked division digest worker sent ∧ Reachable digest uploads start worker := by
  induction h with
  | start => exact ⟨hopening.tracked, .start⟩
  | step _ hadmits hstep ih =>
    obtain ⟨owner, hfits⟩ := ih.2.fits hlasting hopening
    exact ⟨ih.1.step hdigest hlasting hfits hadmits hstep, .step _ ih.2 hadmits⟩

end

variable (digest division) in
/-- What repeated requests of an upload come to, and what they leave. A request is rejected when it
repeats the last of several parts, and no other one is. When all have been answered, the temporary
file is that of the parts that have been sent, however often. And the target is left as it was, but
for the content that the last part puts there, the first time or again. -/
structure Retryable (worker : Worker) (sent : ℕ) : Prop where
  rejected : ∀ (index : ℕ) chunk succeeded, chunk.uploadId = division.uploadId →
    worker.handlers[index]? = some (.writeChunk chunk, .finished succeeded) →
      (succeeded = false ↔ chunk.offset + chunk.data.length = chunk.size ∧ chunk.offset ≠ 0 ∧
        Repeated worker.operations index (.writeChunk chunk))
  temporary : worker.Idle division → worker.disk.file division.temporary =
    if sent = 0 ∨ sent = division.parts.length then none
    else some (division.parts.take sent).flatten
  target : worker.Idle division → sent = division.parts.length → division.Held worker.disk
  kept : ∀ (index : ℕ) chunk stage answer, chunk.uploadId = division.uploadId →
    worker.handlers[index]? = some (.writeChunk chunk, stage) →
      (worker.step digest (.resumed index answer)).disk.file (uploads division.uploadId).path =
          worker.disk.file (uploads division.uploadId).path ∨
        chunk.offset + chunk.data.length = chunk.size ∧
          (worker.step digest (.resumed index answer)).disk.file (uploads division.uploadId).path =
            some (uploads division.uploadId).content

theorem Tracked.retryable (hdigest : ∀ bytes, isDigest (digest bytes) = true)
    (hlasting : ∀ uploadId, Lasting uploads (uploads uploadId).path) {worker : Worker} {sent : ℕ}
    (hfits : Fits digest uploads owner worker) (h : Tracked division digest worker sent) :
    Retryable division digest worker sent := by
  refine ⟨fun index chunk succeeded hmine hget ↦ ?_, fun hidle ↦ ?_,
    fun hidle ↦ (h.settled hidle).2,
    fun index chunk stage answer hmine hget ↦ h.target hdigest hlasting hfits hget hmine answer⟩
  · obtain ⟨hanswered, -⟩ := h
    obtain ⟨part, hlt, hpart⟩ := hanswered.parts index _ (getElem?_operations hget) hmine
    obtain rfl := Operation.writeChunk.inj hpart
    have hpart := hlt.trans_le hanswered.within
    rw [hanswered.outcome index part succeeded hpart hget, ← Division.ends_iff hpart,
      Division.offset_succ hpart]
    exact and_congr_right fun _ ↦ and_congr_left fun _ ↦ not_congr (Division.starts_iff hpart).symm
  · have hkept := (h.settled hidle).1
    rw [Division.Kept] at hkept
    split_ifs at hkept ⊢ with hsent
    · rw [Disk.file, hkept]
      rfl
    · obtain ⟨inode, hbetween⟩ := hkept
      have hbegun := hfits.disk.begun inode _ (hfits.disk.below _ _ hbetween.names)
        (hfits.disk.temporary division.uploadId inode hbetween.names)
      have hlength := le_antisymm hbetween.most hbetween.least
      rw [Disk.file, hbetween.names, Option.map_some, List.prefix_iff_eq_take.1 hbegun, hlength,
        Division.content_take]

/-- Uploads replace their targets as a whole, however requests are ordered and overlap, while every
rename finds the file that its handler has opened. And while the parts of an upload are sent in
order, a repeated request succeeds, unless it repeats the last of several parts. -/
theorem uploads_whole_and_retryable (digest : List UInt8 → String)
    (hdigest : ∀ bytes, isDigest (digest bytes) = true) (uploads : String → Upload)
    (hlasting : ∀ uploadId, Lasting uploads (uploads uploadId).path) (start : Worker)
    (hopening : Opening uploads start) :
    (∀ worker event, Reachable digest uploads start worker → Admits digest uploads worker event →
      worker.Replaces uploads (worker.step digest event) event) ∧
    ∀ (division : Division uploads) worker sent, InOrder division digest start worker sent →
      Retryable division digest worker sent := by
  constructor
  · intro worker event hreachable hadmits
    obtain ⟨owner, hfits⟩ := hreachable.fits hlasting hopening
    exact (step_fits hlasting hfits hadmits).2
  · intro division worker sent hinOrder
    obtain ⟨htracked, hreachable⟩ := hinOrder.tracked hdigest hlasting hopening
    obtain ⟨owner, hfits⟩ := hreachable.fits hlasting hopening
    exact htracked.retryable hdigest hlasting hfits

/-! ## Two parts -/

def sampleUpload : Upload where
  path := ["report"]
  content := [1, 2]
  named := by decide
  nonempty := by decide
  bounded := by decide

def sampleDigest (bytes : List UInt8) : String :=
  if bytes = [1, 2] then "a12871fee210fb8619291eaea194581cbd2531e4b23759d225f6806923f63222"
  else "e3b0c44298fc1c149afbf4c8996fb92427ae41e4649b934ca495991b7852b855"

def sampleDivision : Division fun _ ↦ sampleUpload where
  uploadId := "01234567-89ab-cdef-0123-456789abcdef"
  path := ["report"]
  parts := [[1], [2]]
  identified := by decide
  named := by decide
  whole := rfl
  small := by decide

def emptyWorker : Worker where
  disk := { names := fun _ ↦ none, inodes := fun _ ↦ ⟨[], 0⟩, next := 0 }
  handlers := []

theorem sampleDigest_isDigest (bytes : List UInt8) : isDigest (sampleDigest bytes) = true := by
  rw [sampleDigest]
  split_ifs
  · decide
  · decide

theorem sampleUpload_lasting (uploadId : String) :
    Lasting (fun _ ↦ sampleUpload) ((fun _ ↦ sampleUpload) uploadId).path := by
  intro other h
  have hname := congrArg (fun path ↦ path.map String.toList) h
  simp [temporaryPath, temporaryOf, sampleUpload, String.toList_append] at hname

instance (disk : Disk) (operation : Operation) :
    (stage : Stage) → Decidable (Undisturbed disk operation stage)
  | .renaming inode =>
    inferInstanceAs (Decidable (∀ found ∈ disk.names operation.temporary, found = inode))
  | .received | .opened _ | .writing _ _ | .reading _ _ | .finished _ =>
    inferInstanceAs (Decidable True)

instance (worker : Worker) : Decidable (worker.Idle sampleDivision) :=
  inferInstanceAs (Decidable (∀ handler ∈ worker.handlers,
    handler.1.uploadId = sampleDivision.uploadId → ∃ succeeded, handler.2 = .finished succeeded))

/-- So many calls of one handler. -/
def handled (index calls : ℕ) : List Event :=
  List.replicate calls (.resumed index (.moves 1))

theorem InOrder.next {start worker : Worker} {sent : ℕ}
    (h : InOrder division digest start worker sent) (hidle : worker.Idle division)
    (hmore : sent < division.parts.length) :
    InOrder division digest start
      (worker.step digest (.received (.writeChunk (division.request digest sent)))) (sent + 1) := by
  refine .step h ⟨?_, nofun⟩ (.next hidle hmore)
  rintro _ ⟨⟩
  exact Division.sends_request digest hmore

theorem InOrder.again {start worker : Worker} {part : ℕ}
    (h : InOrder division digest start worker (part + 1)) (hidle : worker.Idle division)
    (hpart : part < division.parts.length) :
    InOrder division digest start
      (worker.step digest (.received (.writeChunk (division.request digest part)))) (part + 1) := by
  refine .step h ⟨?_, nofun⟩ (.again hidle rfl)
  rintro _ ⟨⟩
  exact Division.sends_request digest hpart

/-- The calls of one handler, none of which fails, are steps in order. -/
theorem InOrder.handled {start worker : Worker} {sent index calls : ℕ}
    (h : InOrder division digest start worker sent)
    (hundisturbed : ∀ earlier < calls, ∀ handler ∈
      ((handled index earlier).foldl (Worker.step digest) worker).handlers[index]?,
        Undisturbed ((handled index earlier).foldl (Worker.step digest) worker).disk
          handler.1 handler.2) :
    InOrder division digest start
      ((handled index calls).foldl (Worker.step digest) worker) sent := by
  induction calls with
  | zero => exact h
  | succ calls ih =>
    rw [EnvironmentFileWorker.handled, List.replicate_succ', List.foldl_append, List.foldl_cons,
      List.foldl_nil]
    refine .step (ih fun earlier hearlier ↦ hundisturbed earlier (by omega)) ⟨nofun, ?_⟩
      (.resumed _ _ fun _ _ _ _ ↦ ⟨1, by decide, rfl⟩)
    rintro _ _ ⟨⟩ - operation stage hhandler
    exact hundisturbed calls (Nat.lt_succ_self calls) (operation, stage) hhandler

/-- Both parts are sent, the first one twice, and the handler of the last one is about to rename. -/
def sampleRenaming : Worker :=
  let first := Event.received (.writeChunk (sampleDivision.request sampleDigest 0))
  let last := Event.received (.writeChunk (sampleDivision.request sampleDigest 1))
  let again := (handled 0 3).foldl (Worker.step sampleDigest) (emptyWorker.step sampleDigest first)
  let stored := (handled 1 3).foldl (Worker.step sampleDigest) (again.step sampleDigest first)
  (handled 2 6).foldl (Worker.step sampleDigest) (stored.step sampleDigest last)

theorem sampleRenaming_inOrder :
    InOrder sampleDivision sampleDigest emptyWorker sampleRenaming 2 :=
  (((((InOrder.start.next (by decide) (by decide)).handled (by decide)).again (by decide)
    (by decide)).handled (by decide)).next (by decide) (by decide)).handled (by decide)

/-- The upload is completed, and its last part comes again. -/
def sampleRetries : Worker :=
  let last := Event.received (.writeChunk (sampleDivision.request sampleDigest 1))
  let stored := (handled 2 1).foldl (Worker.step sampleDigest) sampleRenaming
  (handled 3 1).foldl (Worker.step sampleDigest) (stored.step sampleDigest last)

theorem sampleUploads_whole_and_retryable :
    sampleRetries.handlers.map Prod.snd =
      [.finished true, .finished true, .finished true, .finished false] ∧
    sampleRetries.disk.file ["report"] = some [1, 2] ∧
    Retryable sampleDivision sampleDigest sampleRetries 2 ∧
    sampleRenaming.disk.file ["report"] = none ∧
    sampleRenaming.Replaces (fun _ ↦ sampleUpload)
      (sampleRenaming.step sampleDigest (.resumed 2 (.moves 1))) (.resumed 2 (.moves 1)) := by
  have hopening : Opening (fun _ ↦ sampleUpload) emptyWorker := ⟨rfl, nofun, fun _ ↦ rfl⟩
  obtain ⟨hwhole, hretryable⟩ := uploads_whole_and_retryable sampleDigest sampleDigest_isDigest
    (fun _ ↦ sampleUpload) sampleUpload_lasting emptyWorker hopening
  have hinOrder : InOrder sampleDivision sampleDigest emptyWorker sampleRetries 2 :=
    ((sampleRenaming_inOrder.handled (by decide)).again (by decide) (by decide)).handled (by decide)
  have hreachable := (sampleRenaming_inOrder.tracked sampleDigest_isDigest sampleUpload_lasting
    hopening).2
  refine ⟨by decide +kernel, by decide +kernel, hretryable sampleDivision _ _ hinOrder,
    by decide +kernel, hwhole _ _ hreachable ⟨nofun, ?_⟩⟩
  rintro _ _ ⟨⟩ - operation stage hhandler
  have hundisturbed : ∀ handler ∈ sampleRenaming.handlers[2]?,
      Undisturbed sampleRenaming.disk handler.1 handler.2 := by
    decide +kernel
  exact hundisturbed (operation, stage) hhandler

/-- The repeated last part is rejected. And two handlers of the last part have checked what they
have opened: the first one renames it, then the first part comes again, and the second one renames a
file of one byte. -/
theorem last_part_repeated :
    let first := Event.received (.writeChunk (sampleDivision.request sampleDigest 0))
    let last := Event.received (.writeChunk (sampleDivision.request sampleDigest 1))
    let stored := ([first] ++ handled 0 3 ++ [last] ++ handled 1 7).foldl
      (Worker.step sampleDigest) emptyWorker
    let repeated := ([last] ++ handled 2 1).foldl (Worker.step sampleDigest) stored
    let overlapping := ([first] ++ handled 0 3 ++ [last, last] ++ handled 1 6 ++ handled 2 6 ++
      handled 1 1).foldl (Worker.step sampleDigest) emptyWorker
    let cut := ([first] ++ handled 3 3 ++ handled 2 1).foldl (Worker.step sampleDigest) overlapping
    (stored.disk.file ["report"] = some [1, 2] ∧
      stored.handlers.map Prod.snd = [.finished true, .finished true]) ∧
    repeated.handlers.map Prod.snd = [.finished true, .finished true, .finished false] ∧
    overlapping.disk.file ["report"] = some [1, 2] ∧ cut.disk.file ["report"] = some [1] := by
  decide +kernel

end RatThings.EnvironmentFileWorker
