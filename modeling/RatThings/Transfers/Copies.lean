import RatThings.Transfers.Service

/-!
# Parts and requests of a transfer

A transfer is prepared once and copied in the background, and the process may stop at any time and
be started again. Calls overlap, and requests to the installation may be answered by errors although
they were carried out. This module proves what becomes of the parts and of the import request as
long as one work runs at a time.

## What a copy goes by

A copy goes by the record it has read when it began: how many parts were uploaded, and whether there
is an import request. Both stay as they are as long as the copy is the only work, since executing a
transfer only touches its status. A copy that runs alone appends the parts in their order, and saves
the one request before it sends it.

## The condition

`transferDiscipline` says when a work may be scheduled: only while the transfer is not active, and a
preparation only while there is no snapshot. Between the look at the flag and the scheduling of the
work there are requests, so that two calls can both find the transfer inactive. Then two copies run,
and a part is uploaded twice: that is the run at the end.
-/

namespace RatThings

open Concurrent Prog Service Setting

/-- A work is scheduled only while the transfer is not active, and a preparation only while there is
no snapshot. -/
def transferDiscipline : Discipline TransferWorld TransferEffect TransferCall TransferChoice where
  starts _ _ _ := True
  answers _ e _ w :=
    match e with
    | .schedule upload => w.active = false ∧
      (upload = false → ∀ record ∈ w.record, record.value.snapshot = none)
    | _ => True

/-! ## What a work relies on

`TransferData` is what a record says besides its progress. A step of another call leaves it alone,
or it stops the work. -/

/-- What a record says besides its progress. -/
structure TransferData where
  snapshot : Option TransferSnapshot
  fileIds : List String
  importRequest : Option SessionImport
  totalParts : ℕ

def TransferRecord.data (record : TransferRecord) : TransferData :=
  ⟨record.snapshot, record.fileIds, record.importRequest, record.plan.totalParts⟩

def TransferWorld.data (w : TransferWorld) : Option TransferData := w.record.map (·.value.data)

/-- The request names files whose contents make up the archive, and restores it. -/
def SessionImport.Restores (deployment : TransferDeployment) (uploads : String → Option Bytes)
    (archive : Bytes) (sent : SessionImport) : Prop :=
  ∀ environment, sent.environment = some environment → ∃ contents : List Bytes,
    environment.files.map (fun file ↦ uploads file.fileId) = contents.map some ∧
      contents.flatten = archive ∧
      environment.setupCommands = [⟨deployment.sha256 archive, contents.length, "/workspace"⟩]

/-- The files are the uploads of the first parts of the archive. -/
def PartsOf (uploads : String → Option Bytes) (archive : Bytes) (fileIds : List String) : Prop :=
  ∀ (i : ℕ) (id : String), fileIds[i]? = some id → uploads id = some (archivePart archive i)

structure TransferData.Sound (deployment : TransferDeployment) (uploads : String → Option Bytes)
    (d : TransferData) : Prop where
  empty : d.snapshot = none → d.fileIds = [] ∧ d.importRequest = none
  few : d.totalParts ≤ TransferService.maxParts
  bounded : d.fileIds.length ≤ d.totalParts
  digest : ∀ snapshot, d.snapshot = some snapshot →
    snapshot.sha256 = deployment.sha256 snapshot.archive
  total : ∀ snapshot, d.snapshot = some snapshot → snapshot.request.environment ≠ none →
    d.totalParts = partCount snapshot.archive
  parts : ∀ snapshot, d.snapshot = some snapshot → PartsOf uploads snapshot.archive d.fileIds
  imported : ∀ snapshot sent, d.snapshot = some snapshot → d.importRequest = some sent →
    sent.Restores deployment uploads snapshot.archive

structure TransferWorld.Consistent (deployment : TransferDeployment) (w : TransferWorld) :
    Prop where
  data : ∀ d, w.data = some d → d.Sound deployment w.uploads
  sent : ∀ sent ∈ w.imports, ∃ d, w.data = some d ∧ d.importRequest = some sent
  single : w.scheduled.length + w.working.length ≤ 1
  idle : w.active = false → w.scheduled = [] ∧ w.working = []
  prepares : false ∈ w.scheduled → ∀ d, w.data = some d → d.snapshot = none
  counted : ∀ record, w.record = some record → 0 < record.revision
  created : w.scheduled ≠ [] ∨ w.working ≠ [] → w.data ≠ none

/-- A step of the call `pid` leaves the data of another call's work alone, or stops that call. -/
structure TransferStep (pid : ℕ) (w w' : TransferWorld) : Prop where
  record : w.record.Precedes w'.record
  uploads : ∀ id content, w.uploads id = some content → w'.uploads id = some content
  working : ∀ other, other ≠ pid → other ∈ w.working →
    (other ∈ w'.working ∧ w'.data = w.data) ∨ other ∉ w'.alive
  dead : ∀ other, other ≠ pid → other ∉ w.alive → other ∉ w'.alive

def transferSetting (deployment : TransferDeployment) :
    Setting TransferWorld TransferEffect TransferEffect.Answer ServiceFailure (Option TransferPlan)
      TransferCall TransferChoice where
  service := transferService deployment
  discipline := transferDiscipline
  inv := TransferWorld.Consistent deployment
  guar p _ w w' := TransferStep p.1 w w'

section

variable {deployment : TransferDeployment} {p : ℕ × TransferCall} {P : TransferWorld → Prop}
  {w w' : TransferWorld} {pid : ℕ}

theorem TransferStep.refl (pid : ℕ) (w : TransferWorld) : TransferStep pid w w where
  record := .refl _
  uploads _ _ h := h
  working _ _ h := .inl ⟨h, rfl⟩
  dead _ _ h := h

/-- A step that leaves the works and the calls alone. -/
theorem TransferStep.of_same (hrecord : w.record.Precedes w'.record) (hdata : w'.data = w.data)
    (huploads : ∀ id content, w.uploads id = some content → w'.uploads id = some content)
    (hworking : w'.working = w.working) (halive : w'.alive = w.alive) : TransferStep pid w w' where
  record := hrecord
  uploads := huploads
  working _ _ h := .inl ⟨hworking ▸ h, hdata⟩
  dead _ _ h := halive ▸ h

/-- Requests that change nothing. -/
def TransferEffect.Reads : TransferEffect → Prop
  | .getRecord | .isActive | .retrieveSource _ | .capabilities | .models | .snapshotForTransfer _ =>
    True
  | _ => False

theorem read_of_handle {e : TransferEffect} {x : TransferChoice} {a : e.Answer} (he : e.Reads)
    (h : handleTransfer pid e x w = some (a, w')) : w' = w ∧ pid ∈ w.alive := by
  have hanswer : pid ∈ w.alive ∧ w.answer pid e x = some (a, w') := by
    cases e <;> first
      | contradiction
      | (simp only [handleTransfer] at h
         split at h
         · next halive => exact ⟨halive, h⟩
         · cases h)
  obtain ⟨halive, ha⟩ := hanswer
  refine ⟨?_, halive⟩
  cases e <;> first | contradiction | (cases ha; rfl)

theorem meets_read {e : TransferEffect} {Q : e.Answer → TransferWorld → Prop} (he : e.Reads)
    (hP : (transferSetting deployment).Stable p P)
    (hQ : ∀ w x a, w.Consistent deployment → P w → p.1 ∈ w.alive →
      handleTransfer p.1 e x w = some (a, w) → Q a w) :
    (transferSetting deployment).Meets p P (TransferService.request e) Q fun _ _ ↦ True := by
  refine meets_perform hP fun w x a w' hw hp _ ha ↦ ?_
  obtain ⟨rfl, halive⟩ := read_of_handle he ha
  exact ⟨hw, .refl p.1 w', hQ w' x a hw hp halive ha⟩

/-- What a call reads leaves what it knows alone. -/
theorem meets_read_keeping {e : TransferEffect} (he : e.Reads)
    (hP : (transferSetting deployment).Stable p P) :
    (transferSetting deployment).Meets p P (TransferService.request e) (fun _ ↦ P)
      fun _ _ ↦ True :=
  meets_read he hP fun _ _ _ _ hp _ _ ↦ hp

theorem meets_tryRequest {α : Type} {m : TransferProg (Except ServiceFailure α)}
    {Q : α → TransferWorld → Prop}
    (h : (transferSetting deployment).Meets p P m (fun r w ↦ ∀ a, r = .ok a → Q a w)
      fun _ _ ↦ True) :
    (transferSetting deployment).Meets p P (TransferService.attempt m) Q fun _ _ ↦ True := by
  refine Meets.bind h fun r ↦ ?_
  cases r with
  | ok a => exact meets_ret fun _ _ hq ↦ hq a rfl
  | error failure => exact meets_raise fun _ _ _ ↦ trivial

theorem meets_tryRequest_keeping {α : Type} {m : TransferProg (Except ServiceFailure α)}
    (h : (transferSetting deployment).Meets p P m (fun _ ↦ P) fun _ _ ↦ True) :
    (transferSetting deployment).Meets p P (TransferService.attempt m) (fun _ ↦ P)
      fun _ _ ↦ True :=
  meets_tryRequest (h.conseq (fun _ _ hp ↦ hp) (fun _ _ _ hp _ _ ↦ hp) fun _ _ _ ht ↦ ht)

/-! ## The record -/

theorem permanent_precedes (slot : Slot TransferRecord) :
    (transferSetting deployment).Permanent fun w ↦ slot.Precedes w.record :=
  fun _ _ _ _ _ _ hstep h ↦ h.trans hstep.record

/-- The world after a new value was put into the record. -/
def TransferWorld.setRecord (w : TransferWorld) (record : Versioned TransferRecord) :
    TransferWorld :=
  { w with record := some record }

theorem meets_required {Q : Versioned TransferRecord → TransferWorld → Prop}
    (hP : (transferSetting deployment).Stable p P)
    (hQ : ∀ w record, w.Consistent deployment → P w → p.1 ∈ w.alive → w.record = some record →
      Q record w) :
    (transferSetting deployment).Meets p P TransferService.required Q fun _ _ ↦ True := by
  refine Meets.bind (M := fun slot w ↦ ∀ record, slot = some record → Q record w)
    (meets_read trivial hP fun w x a hw hp halive ha record hrecord ↦ ?_) fun slot ↦ ?_
  · simp only [handleTransfer, if_pos halive, TransferWorld.answer, Option.some.injEq,
      Prod.mk.injEq] at ha
    exact hQ w record hw hp halive (ha.1.trans hrecord)
  · cases slot with
    | none => exact meets_raise fun _ _ _ ↦ trivial
    | some record => exact meets_ret fun _ _ h ↦ h record rfl

/-- An update changes the record that it has read. -/
theorem meets_update {change : TransferRecord → TransferRecord}
    {Q : TransferRecord → TransferWorld → Prop} (hP : (transferSetting deployment).Stable p P)
    (h : ∀ w current, w.Consistent deployment → p.1 ∈ w.alive → P w → w.record = some current →
      (w.setRecord ⟨current.revision + 1, change current.value⟩).Consistent deployment ∧
        TransferStep p.1 w (w.setRecord ⟨current.revision + 1, change current.value⟩) ∧
          Q (change current.value) (w.setRecord ⟨current.revision + 1, change current.value⟩)) :
    (transferSetting deployment).Meets p P (TransferService.update change) Q fun _ _ ↦ True := by
  refine Meets.bind (meets_required (Q := fun current w ↦ P w ∧
    Slot.Precedes (some current) w.record) hP fun w record _ hp _ hrecord ↦ ⟨hp, ?_⟩)
    fun current ↦ ?_
  · rw [hrecord]
    exact .refl _
  refine Meets.bind (M := fun _ ↦ Q (change current.value)) ?_ fun _ ↦ meets_ret fun _ _ hq ↦ hq
  refine Meets.bind (M := fun r w ↦ r = .done → Q (change current.value) w)
    (meets_perform (hP.and (permanent_precedes _).stable) fun w x a w' hw ⟨hp, hread⟩ _ ha ↦ ?_)
    fun r ↦ ?_
  · simp only [transferSetting, transferService, handleTransfer] at ha
    split at ha
    swap
    · cases ha
    next halive =>
      rcases Fate.settle_cases (Option.some.inj ha) with ⟨hnext, -⟩ | ⟨rfl, hne⟩
      · obtain ⟨slot, hput, rfl⟩ := Option.map_eq_some_iff.mp hnext
        obtain ⟨hfound, rfl⟩ := Slot.Precedes.eq_of_put hread hput
        obtain ⟨hw', hstep, hq⟩ := h w current hw halive hp hfound
        exact ⟨hw', hstep, fun _ ↦ hq⟩
      · exact ⟨hw, .refl p.1 _, fun hdone ↦ absurd hdone hne⟩
  · cases r with
    | done => exact meets_ret fun _ _ hq ↦ hq rfl
    | conflict => exact meets_raise fun _ _ _ ↦ trivial
    | unknown => exact meets_raise fun _ _ _ ↦ trivial

theorem data_setRecord (current : Versioned TransferRecord) (value : TransferRecord) :
    (w.setRecord ⟨current.revision + 1, value⟩).data = some value.data := rfl

theorem counted_setRecord {current : Versioned TransferRecord} {value : TransferRecord} :
    ∀ record, (w.setRecord ⟨current.revision + 1, value⟩).record = some record →
      0 < record.revision := by
  intro record hrecord
  obtain rfl := Option.some.inj hrecord
  exact Nat.succ_pos _

theorem precedes_setRecord {current : Versioned TransferRecord} {value : TransferRecord}
    (h : w.record = some current) :
    w.record.Precedes (w.setRecord ⟨current.revision + 1, value⟩).record := by
  rw [h]
  constructor <;> simp [TransferWorld.setRecord]

/-- A change of the progress alone. -/
theorem meets_update_progress {change : TransferRecord → TransferRecord}
    (hchange : ∀ record, (change record).data = record.data)
    (hP : (transferSetting deployment).Stable p P)
    (hkeep : ∀ w w', P w → w'.data = w.data → w'.working = w.working → w'.alive = w.alive → P w') :
    (transferSetting deployment).Meets p P (TransferService.update change) (fun _ ↦ P)
      fun _ _ ↦ True := by
  refine meets_update hP fun w current hw _ hp hrecord ↦ ?_
  have hdata : (w.setRecord ⟨current.revision + 1, change current.value⟩).data = w.data := by
    rw [data_setRecord, hchange, TransferWorld.data, hrecord]
    rfl
  refine ⟨⟨fun d hd ↦ hw.data d (hdata ▸ hd), fun sent hsent ↦ ?_, hw.single, hw.idle,
    fun hmem d hd ↦ hw.prepares hmem d (hdata ▸ hd), counted_setRecord, fun h ↦ ?_⟩,
    .of_same (precedes_setRecord hrecord) hdata (fun _ _ h ↦ h) rfl rfl,
    hkeep w _ hp hdata rfl rfl⟩
  · rw [hdata]
    exact hw.sent sent hsent
  · rw [hdata]
    exact hw.created h

theorem data_withStatus (status : TransferStatus) (error : Option String)
    (record : TransferRecord) :
    (TransferService.withStatus status error record).data = record.data := rfl

/-! ## The only work

There is one work at most, and the data in the record are those it knows of. -/

theorem TransferWorld.Consistent.only (hw : w.Consistent deployment) {other : ℕ}
    (hpid : pid ∈ w.working) (hother : other ∈ w.working) : other = pid := by
  have hlength : w.working.length ≤ 1 := by
    have hsingle := hw.single
    omega
  match hworking : w.working, hlength with
  | [only], _ =>
    rw [hworking] at hpid hother
    rw [List.mem_singleton.mp hpid, List.mem_singleton.mp hother]
  | [], _ =>
    rw [hworking] at hpid
    cases hpid

/-- The call works on the transfer, and these are its data; or it does not run any more. -/
def Owns (pid : ℕ) (d : Option TransferData) (w : TransferWorld) : Prop :=
  pid ∈ w.alive → pid ∈ w.working ∧ w.data = d

theorem stable_owns (d : Option TransferData) :
    (transferSetting deployment).Stable p (Owns p.1 d) := by
  intro q e w w' hne hw hw' hstep h halive'
  by_cases halive : p.1 ∈ w.alive
  · obtain ⟨hworking, hdata⟩ := h halive
    rcases hstep.working p.1 hne.symm hworking with ⟨hworking', hdata'⟩ | hdead
    · exact ⟨hworking', hdata'.trans hdata⟩
    · exact absurd halive' hdead
  · exact absurd halive' (hstep.dead p.1 hne.symm halive)

theorem Owns.keep {d : Option TransferData} (h : Owns pid d w) (hdata : w'.data = w.data)
    (hworking : w'.working = w.working) (halive : w'.alive = w.alive) : Owns pid d w' := by
  rw [Owns, hdata, hworking, halive]
  exact h

/-- The step of a work that owns the transfer. -/
theorem TransferStep.of_owner (hw : w.Consistent deployment) (hworking : pid ∈ w.working)
    (hrecord : w.record.Precedes w'.record)
    (huploads : ∀ id content, w.uploads id = some content → w'.uploads id = some content)
    (halive : w'.alive = w.alive) : TransferStep pid w w' where
  record := hrecord
  uploads := huploads
  working _ hne h := absurd (hw.only hworking h) hne
  dead _ _ h := halive ▸ h

/-- A change of the data by the work that owns them. -/
theorem meets_update_owned {change : TransferRecord → TransferRecord} {d : TransferData}
    (d' : TransferData) (hchange : ∀ record, record.data = d → (change record).data = d')
    (hP : (transferSetting deployment).Stable p P) (howns : ∀ w, P w → Owns p.1 (some d) w)
    (hsound : ∀ w, w.Consistent deployment → P w → p.1 ∈ w.alive → d.Sound deployment w.uploads →
      d'.Sound deployment w.uploads)
    (himport : ∀ sent, d.importRequest = some sent → d'.importRequest = some sent) :
    (transferSetting deployment).Meets p P (TransferService.update change)
      (fun record w ↦ record.data = d' ∧ Owns p.1 (some d') w) fun _ _ ↦ True := by
  refine meets_update hP fun w current hw halive hp hrecord ↦ ?_
  obtain ⟨hworking, hdata⟩ := howns w hp halive
  have hcurrent : current.value.data = d := by
    rw [TransferWorld.data, hrecord] at hdata
    exact Option.some.inj hdata
  have hdata' : (w.setRecord ⟨current.revision + 1, change current.value⟩).data = some d' := by
    rw [data_setRecord, hchange _ hcurrent]
  have hscheduled : w.scheduled = [] := by
    have hsingle := hw.single
    have hpos := List.length_pos_of_mem hworking
    exact List.length_eq_zero_iff.mp (by omega)
  refine ⟨⟨fun d₁ hd₁ ↦ ?_, fun sent hsent ↦ ?_, hw.single, hw.idle, fun hmem ↦ ?_,
    counted_setRecord, fun _ ↦ by rw [hdata']; exact Option.some_ne_none _⟩,
    .of_owner hw hworking (precedes_setRecord hrecord) (fun _ _ h ↦ h) rfl,
    hchange _ hcurrent, fun _ ↦ ⟨hworking, hdata'⟩⟩
  · obtain rfl := Option.some.inj (hdata'.symm.trans hd₁)
    exact hsound w hw hp halive (hw.data d hdata)
  · obtain ⟨d₁, hd₁, hsent₁⟩ := hw.sent sent hsent
    obtain rfl := Option.some.inj (hdata.symm.trans hd₁)
    exact ⟨d', hdata', himport sent hsent₁⟩
  · exact absurd (hscheduled ▸ hmem : false ∈ ([] : List Bool)) List.not_mem_nil

/-! ## Calls and works -/

theorem yields_enter :
    (transferSetting deployment).Yields p (TransferService.request .enter) fun _ ↦ True := by
  refine yields_perform fun w x a w' hw _ _ ha ↦ ?_
  cases ha
  refine ⟨⟨hw.data, hw.sent, hw.single, hw.idle, hw.prepares, hw.counted, hw.created⟩, ⟨.refl _,
    fun _ _ h ↦ h, fun _ _ h ↦ .inl ⟨h, rfl⟩, fun other hne hdead ↦ ?_⟩, trivial⟩
  exact List.not_mem_cons_of_ne_of_not_mem hne hdead

/-- A work that begins owns the transfer. A preparation begins without a snapshot. -/
theorem meets_takeWork :
    (transferSetting deployment).Meets p (fun _ ↦ True) (TransferService.request .takeWork)
      (fun upload w ↦ ∃ d, Owns p.1 (some d) w ∧ (upload = false → d.snapshot = none))
      fun _ _ ↦ True := by
  refine meets_perform stable_true fun w x a w' hw _ _ ha ↦ ?_
  simp only [transferSetting, transferService, handleTransfer] at ha
  split at ha
  · cases ha
  next upload scheduled hscheduled =>
    cases ha
    have hsingle := hw.single
    rw [hscheduled, List.length_cons] at hsingle
    have hcreated : w.data ≠ none :=
      hw.created (.inl (by rw [hscheduled]; exact List.cons_ne_nil _ _))
    obtain ⟨d, hd⟩ := Option.ne_none_iff_exists'.mp hcreated
    refine ⟨⟨hw.data, hw.sent, ?_, fun hidle ↦ ?_, fun hmem ↦ hw.prepares ?_, hw.counted,
      fun _ ↦ hcreated⟩, ⟨.refl _, fun _ _ h ↦ h,
      fun other _ h ↦ .inl ⟨List.mem_cons_of_mem _ h, rfl⟩,
      fun other hne hdead ↦ List.not_mem_cons_of_ne_of_not_mem hne hdead⟩, d,
      fun _ ↦ ⟨List.mem_cons_self, hd⟩, fun hupload ↦ ?_⟩
    · dsimp only
      rw [List.length_cons]
      omega
    · have hempty := (hw.idle hidle).1
      rw [hscheduled] at hempty
      cases hempty
    · rw [hscheduled]
      exact List.mem_cons_of_mem _ hmem
    · exact hw.prepares (by rw [hscheduled, hupload]; exact List.mem_cons_self) d hd

theorem permanent_created : (transferSetting deployment).Permanent fun w ↦ w.data ≠ none := by
  intro q e w w' hw _ hstep hdata
  obtain ⟨record, hrecord⟩ : ∃ record, w.record = some record := by
    cases h : w.record with
    | none => exact absurd (by rw [TransferWorld.data, h]; rfl) hdata
    | some record => exact ⟨record, rfl⟩
  have hle := hstep.record.1
  have hpos := hw.counted record hrecord
  rw [hrecord] at hle
  rw [TransferWorld.data, Ne, Option.map_eq_none_iff]
  rintro hnone
  rw [hnone] at hle
  simp only [Slot.revision_some, Slot.revision_none] at hle
  omega

theorem meets_schedule (upload : Bool) :
    (transferSetting deployment).Meets p (fun w ↦ w.data ≠ none)
      (TransferService.request (.schedule upload)) (fun _ _ ↦ True) fun _ _ ↦ True := by
  refine meets_perform permanent_created.stable fun w x a w' hw hcreated hx ha ↦ ?_
  simp only [transferSetting, transferService, handleTransfer] at ha
  split at ha
  swap
  · cases ha
  cases ha
  obtain ⟨hidle, hnone⟩ := hx
  obtain ⟨hscheduled, hworking⟩ := hw.idle hidle
  refine ⟨⟨hw.data, hw.sent, ?_, fun h ↦ ?_, fun hmem d hd ↦ ?_, hw.counted, fun _ ↦ hcreated⟩,
    ⟨.refl _, fun _ _ h ↦ h, fun _ _ h ↦ .inl ⟨h, rfl⟩, fun _ _ h ↦ h⟩, trivial⟩
  · simp [hscheduled, hworking]
  · cases h
  · have hupload : upload = false := by
      rw [hscheduled] at hmem
      exact (List.mem_singleton.mp hmem).symm
    obtain ⟨record, hrecord, rfl⟩ := Option.map_eq_some_iff.mp hd
    exact hnone hupload record hrecord

/-- The call is the work, or does not run any more. -/
def Works (pid : ℕ) (w : TransferWorld) : Prop := pid ∈ w.alive → pid ∈ w.working

theorem stable_works : (transferSetting deployment).Stable p (Works p.1) := by
  intro q e w w' hne _ _ hstep h halive'
  by_cases halive : p.1 ∈ w.alive
  · rcases hstep.working p.1 hne.symm (h halive) with ⟨hworking', -⟩ | hdead
    · exact hworking'
    · exact absurd halive' hdead
  · exact absurd halive' (hstep.dead p.1 hne.symm halive)

theorem meets_finish :
    (transferSetting deployment).Meets p (Works p.1) (TransferService.request .finish)
      (fun _ _ ↦ True) fun _ _ ↦ True := by
  refine meets_perform stable_works fun w x a w' hw hworks _ ha ↦ ?_
  simp only [transferSetting, transferService, handleTransfer] at ha
  split at ha
  swap
  · cases ha
  next halive =>
    cases ha
    have hworking := hworks halive
    have hsingle := hw.single
    have hlength : (w.working.erase p.1).length = w.working.length - 1 :=
      List.length_erase_of_mem hworking
    have hpos := List.length_pos_of_mem hworking
    have hcreated : w.data ≠ none := hw.created (.inr (List.ne_nil_of_mem hworking))
    refine ⟨⟨hw.data, hw.sent, ?_, fun _ ↦ ⟨?_, ?_⟩, hw.prepares, hw.counted, fun _ ↦ hcreated⟩,
      ⟨.refl _, fun _ _ h ↦ h, fun other hne h ↦ absurd (hw.only hworking h) hne, fun _ _ h ↦ h⟩,
      trivial⟩
    · dsimp only
      omega
    · exact List.length_eq_zero_iff.mp (by dsimp only; omega)
    · exact List.length_eq_zero_iff.mp (by dsimp only; omega)

theorem yields_restart :
    (transferSetting deployment).Yields p (TransferService.request .restart) fun _ ↦ True := by
  refine yields_perform fun w x a w' hw _ _ ha ↦ ?_
  cases ha
  exact ⟨⟨hw.data, hw.sent, by simp, fun _ ↦ ⟨rfl, rfl⟩, fun h ↦ absurd h List.not_mem_nil,
    hw.counted, fun h ↦ absurd h (by simp)⟩, ⟨.refl _, fun _ _ h ↦ h,
      fun _ _ _ ↦ .inr List.not_mem_nil, fun _ _ _ ↦ List.not_mem_nil⟩,
    trivial⟩

/-! ## Uploads and imports -/

theorem SessionImport.Restores.mono {uploads uploads' : String → Option Bytes} {archive : Bytes}
    {sent : SessionImport} (h : sent.Restores deployment uploads archive)
    (hkept : ∀ id content, uploads id = some content → uploads' id = some content) :
    sent.Restores deployment uploads' archive := by
  intro environment henvironment
  obtain ⟨contents, hfiles, hflatten, hcommands⟩ := h environment henvironment
  refine ⟨contents, ?_, hflatten, hcommands⟩
  refine List.ext_getElem? fun i ↦ ?_
  have hi : (environment.files.map fun file ↦ uploads file.fileId)[i]? =
      (contents.map some)[i]? := by
    rw [hfiles]
  rw [List.getElem?_map, List.getElem?_map] at hi ⊢
  cases hfile : environment.files[i]? with
  | none =>
    rw [hfile] at hi
    rw [← hi]
    rfl
  | some file =>
    rw [hfile] at hi
    cases hcontent : contents[i]? with
    | none => simp [hcontent] at hi
    | some content =>
      rw [hcontent] at hi
      simp only [Option.map_some, Option.some.injEq] at hi ⊢
      exact hkept _ _ hi

theorem TransferData.Sound.mono {uploads uploads' : String → Option Bytes} {d : TransferData}
    (h : d.Sound deployment uploads)
    (hkept : ∀ id content, uploads id = some content → uploads' id = some content) :
    d.Sound deployment uploads' :=
  ⟨h.empty, h.few, h.bounded, h.digest, h.total,
    fun snapshot hsnapshot i id hid ↦ hkept _ _ (h.parts snapshot hsnapshot i id hid),
    fun snapshot sent hsnapshot hsent ↦ (h.imported snapshot sent hsnapshot hsent).mono hkept⟩

theorem meets_upload {d : TransferData} {index : ℕ} {content : Bytes} :
    (transferSetting deployment).Meets p (Owns p.1 (some d))
      (TransferService.request (.upload index content))
      (fun r w ↦ ∀ id, r = .ok id → Owns p.1 (some d) w ∧ w.uploads id = some content)
      fun _ _ ↦ True := by
  refine meets_perform (stable_owns _) fun w x a w' hw howns _ ha ↦ ?_
  simp only [transferSetting, transferService, handleTransfer] at ha
  split at ha
  swap
  · cases ha
  simp only [TransferWorld.answer] at ha
  have hkeep : w.Consistent deployment ∧ TransferStep p.1 w w := ⟨hw, .refl p.1 w⟩
  have hnext : ∀ t, w.upload x.text content = some t → t.Consistent deployment ∧
      TransferStep p.1 w t ∧ Owns p.1 (some d) t ∧ t.uploads x.text = some content := by
    intro t ht
    rw [TransferWorld.upload] at ht
    split at ht
    swap
    · cases ht
    next hfresh =>
      obtain rfl := Option.some.inj ht
      -- The id of a file is new, so no file that was uploaded before changes.
      have hkept : ∀ id old, w.uploads id = some old →
          Function.update w.uploads x.text (some content) id = some old := by
        intro id old hold
        rw [Function.update_apply]
        split
        · next hid =>
          rw [hid, hfresh] at hold
          cases hold
        · exact hold
      exact ⟨⟨fun d₁ hd₁ ↦ (hw.data d₁ hd₁).mono hkept, hw.sent, hw.single, hw.idle, hw.prepares,
        hw.counted, hw.created⟩,
        .of_same (.refl _) rfl hkept rfl rfl, howns.keep rfl rfl rfl, Function.update_self ..⟩
  generalize hsettle : x.fate.settle (w.upload x.text content) w = outcome at ha
  obtain ⟨r, t⟩ := outcome
  have ht : t.Consistent deployment ∧ TransferStep p.1 w t ∧
      (r = .done → Owns p.1 (some d) t ∧ t.uploads x.text = some content) := by
    rcases Fate.settle_cases hsettle with ⟨hupload, -⟩ | ⟨rfl, hne⟩
    · obtain ⟨hconsistent, hstep, hpost⟩ := hnext t hupload
      exact ⟨hconsistent, hstep, fun _ ↦ hpost⟩
    · exact ⟨hw, .refl p.1 _, fun hdone ↦ absurd hdone hne⟩
  obtain ⟨hconsistent, hstep, hpost⟩ := ht
  cases r with
  | done =>
    cases ha
    refine ⟨hconsistent, hstep, fun id hid ↦ ?_⟩
    obtain rfl := Except.ok.inj hid
    exact hpost rfl
  | conflict =>
    cases ha
    exact ⟨hconsistent, hstep, fun id hid ↦ by cases hid⟩
  | unknown =>
    cases ha
    exact ⟨hconsistent, hstep, fun id hid ↦ by cases hid⟩

/-- A request is sent after it was saved. -/
theorem meets_importSession {d : TransferData} {sent : SessionImport}
    (hsaved : d.importRequest = some sent) :
    (transferSetting deployment).Meets p (Owns p.1 (some d))
      (TransferService.request (.importSession sent)) (fun _ _ ↦ True) fun _ _ ↦ True := by
  refine meets_perform (stable_owns _) fun w x a w' hw howns _ ha ↦ ?_
  simp only [transferSetting, transferService, handleTransfer] at ha
  split at ha
  swap
  · cases ha
  next halive =>
    cases ha
    refine ⟨⟨hw.data, fun other hother ↦ ?_, hw.single, hw.idle, hw.prepares, hw.counted,
      hw.created⟩,
      .of_same (.refl _) rfl (fun _ _ h ↦ h) rfl rfl, trivial⟩
    rcases List.mem_append.mp hother with hold | hnew
    · exact hw.sent other hold
    · obtain rfl := List.mem_singleton.mp hnew
      exact ⟨d, (howns halive).2, hsaved⟩

/-! ## Preparing -/

theorem meets_preflight (model : String) (hP : (transferSetting deployment).Stable p P) :
    (transferSetting deployment).Meets p P (TransferService.preflight model) (fun _ ↦ P)
      fun _ _ ↦ True := by
  refine Meets.bind (meets_tryRequest_keeping (meets_read_keeping trivial hP)) fun capabilities ↦ ?_
  split
  · exact meets_raise fun _ _ _ ↦ trivial
  · refine Meets.bind (meets_tryRequest_keeping (meets_read_keeping trivial hP)) fun models ↦ ?_
    split
    · exact meets_ret fun _ _ h ↦ h
    · exact meets_raise fun _ _ _ ↦ trivial

/-- What a work has read is what it owns. -/
theorem meets_required_owned {d : TransferData} :
    (transferSetting deployment).Meets p (Owns p.1 (some d)) TransferService.required
      (fun current w ↦ Owns p.1 (some d) w ∧ current.value.data = d ∧
        d.Sound deployment w.uploads) fun _ _ ↦ True := by
  refine meets_required (stable_owns (some d)) fun w current hw howns halive hrecord ↦ ?_
  obtain ⟨hworking, hdata⟩ := howns halive
  have hcurrent : w.data = some current.value.data := by rw [TransferWorld.data, hrecord]; rfl
  exact ⟨howns, Option.some.inj (hcurrent.symm.trans hdata), hw.data d hdata⟩

theorem partCount_le {archive : Bytes} (h : archive.length ≤ TransferService.maxArchiveBytes) :
    partCount archive ≤ TransferService.maxParts := by
  simp only [partCount, chunkBytes, TransferService.maxParts,
    TransferService.maxArchiveBytes] at h ⊢
  omega

theorem length_le_of_refusal {capabilities : ImportCapabilities} {snapshot : SessionSnapshot}
    {sent : SessionImport}
    (h : TransferService.refusal deployment capabilities snapshot sent = none) :
    snapshot.archive.length ≤ TransferService.maxArchiveBytes := by
  rw [TransferService.refusal] at h
  split at h
  · cases h
  · next hle => exact Nat.le_of_not_lt hle

/-- A snapshot makes sound data of those of a new record. -/
theorem TransferData.Sound.snapshot {uploads : String → Option Bytes} {record : TransferRecord}
    {source : SourceSession} {model : String} {snapshot : SessionSnapshot}
    (h : record.data.Sound deployment uploads) (hnone : record.data.snapshot = none)
    (hsmall : snapshot.archive.length ≤ TransferService.maxArchiveBytes) :
    (TransferService.withSnapshot deployment source model snapshot record).data.Sound deployment
      uploads := by
  obtain ⟨hfiles, himport⟩ := h.empty hnone
  have hfiles' : record.fileIds = [] := hfiles
  have himport' : record.importRequest = none := himport
  constructor
  · intro hempty
    cases hempty
  · simp only [TransferService.withSnapshot, TransferRecord.data]
    split
    · exact partCount_le hsmall
    · exact Nat.zero_le _
  · simp [TransferService.withSnapshot, TransferRecord.data, hfiles']
  · intro s hs
    cases hs
    rfl
  · intro s hs henvironment
    cases hs
    simp only [TransferService.importOf, ne_eq, ite_eq_right_iff, reduceCtorEq, imp_false,
      Bool.not_eq_true, Bool.not_eq_false] at henvironment
    simp [TransferService.withSnapshot, TransferRecord.data, henvironment]
  · intro s hs i id hid
    simp only [TransferService.withSnapshot, TransferRecord.data, hfiles'] at hid
    simp at hid
  · intro s sent hs hsent
    simp only [TransferService.withSnapshot, TransferRecord.data, himport'] at hsent
    cases hsent

theorem meets_prepare {d : TransferData} (hempty : d.snapshot = none) :
    (transferSetting deployment).Meets p (Owns p.1 (some d)) (TransferService.prepare deployment)
      (fun _ _ ↦ True) fun _ _ ↦ True := by
  refine Meets.bind meets_required_owned fun current w hw ⟨howns, hd, _⟩ ↦ ?_
  subst hd
  have hstable : (transferSetting deployment).Stable p (Owns p.1 (some current.value.data)) :=
    stable_owns _
  refine Meets.bind (meets_update_progress (data_withStatus _ _) hstable
    fun _ _ h hdata hworking halive ↦ h.keep hdata hworking halive) (fun _ ↦ ?_) w hw howns
  refine Meets.bind (meets_tryRequest_keeping (meets_read_keeping trivial hstable)) fun source ↦ ?_
  refine Meets.bind (meets_preflight _ hstable) fun capabilities ↦ ?_
  refine Meets.bind (meets_tryRequest_keeping (meets_read_keeping trivial hstable))
    fun snapshot ↦ ?_
  split
  · exact meets_raise fun _ _ _ ↦ trivial
  next hallowed =>
    have hsmall := length_le_of_refusal hallowed
    refine Meets.bind (M := fun _ _ ↦ True) ?_ fun _ ↦ meets_ret fun _ _ _ ↦ trivial
    refine (meets_update_owned (TransferService.withSnapshot deployment source
      (current.value.plan.model.getD source.model) snapshot current.value).data
      (fun record hrecord ↦ ?_) hstable (fun _ h ↦ h)
      (fun w _ _ _ hsound ↦ hsound.snapshot hempty hsmall) fun sent hsent ↦ ?_).conseq
        (fun _ _ h ↦ h) (fun _ _ _ _ ↦ trivial) fun _ _ _ h ↦ h
    · simp only [TransferService.withSnapshot, TransferRecord.data,
        TransferData.mk.injEq] at hrecord ⊢
      exact ⟨trivial, hrecord.2.1, hrecord.2.2.1, trivial⟩
    · exact hsent

/-! ## Copying -/

/-- The next part keeps the data sound. -/
theorem TransferData.Sound.append {uploads : String → Option Bytes} {d : TransferData}
    {snapshot : TransferSnapshot} {id : String} (h : d.Sound deployment uploads)
    (hsnapshot : d.snapshot = some snapshot) (hnone : d.importRequest = none)
    (hroom : d.fileIds.length < d.totalParts)
    (hupload : uploads id = some (archivePart snapshot.archive d.fileIds.length)) :
    TransferData.Sound deployment uploads { d with fileIds := d.fileIds ++ [id] } := by
  refine ⟨fun hempty ↦ ?_, h.few, ?_, h.digest, h.total, fun s hs i id' hid' ↦ ?_,
    fun s sent _ hsent ↦ ?_⟩
  · rw [hsnapshot] at hempty
    cases hempty
  · rw [List.length_append]
    exact hroom
  · obtain rfl := Option.some.inj (hsnapshot.symm.trans hs)
    rcases lt_or_ge i d.fileIds.length with hlt | hge
    · rw [List.getElem?_append_left hlt] at hid'
      exact h.parts snapshot hsnapshot i id' hid'
    · rw [List.getElem?_append_right hge, List.getElem?_singleton] at hid'
      split at hid'
      · next hzero =>
        obtain rfl := Option.some.inj hid'
        rwa [show i = d.fileIds.length by omega]
      · cases hid'
  · rw [hnone] at hsent
    cases hsent

/-- Uploads go on where the record ends, and the last part ends them. -/
theorem meets_uploadParts {snapshot : TransferSnapshot} (remaining : ℕ) :
    ∀ (record : TransferRecord) (d : TransferData), record.data = d → d.snapshot = some snapshot →
      d.importRequest = none → d.totalParts ≤ TransferService.maxParts →
      TransferService.maxParts ≤ d.fileIds.length + remaining →
      (transferSetting deployment).Meets p (Owns p.1 (some d))
        (TransferService.uploadParts snapshot.archive record d.fileIds.length remaining)
        (fun record' w ↦ ∃ d', record'.data = d' ∧ Owns p.1 (some d') w ∧
          d'.snapshot = some snapshot ∧ d'.importRequest = none ∧ d'.totalParts ≤ d'.fileIds.length)
        fun _ _ ↦ True := by
  induction remaining with
  | zero =>
    intro record d hrecord hsnapshot hnone hfew hall
    exact meets_ret fun w _ h ↦ ⟨d, hrecord, h, hsnapshot, hnone, hfew.trans hall⟩
  | succ remaining ih =>
    intro record d hrecord hsnapshot hnone hfew hall
    have htotal : record.plan.totalParts = d.totalParts := by rw [← hrecord]; rfl
    rw [TransferService.uploadParts]
    split
    swap
    · next hend =>
      exact meets_ret fun w _ h ↦ ⟨d, hrecord, h, hsnapshot, hnone, by omega⟩
    next hroom =>
      refine Meets.bind (meets_tryRequest meets_upload) fun id ↦ ?_
      have hstable : (transferSetting deployment).Stable p fun w ↦ Owns p.1 (some d) w ∧
          w.uploads id = some (archivePart snapshot.archive d.fileIds.length) :=
        (stable_owns _).and fun _ _ _ _ _ _ _ hstep h ↦ hstep.uploads _ _ h
      refine Meets.bind (meets_update_owned { d with fileIds := d.fileIds ++ [id] }
        (fun r hr ↦ ?_) hstable (fun _ h ↦ h.1)
        (fun w _ h _ hsound ↦ hsound.append hsnapshot hnone (by omega) h.2)
        fun _ h ↦ h) fun record' w hw ⟨hrecord', howns⟩ ↦ ?_
      · simp only [TransferRecord.data, TransferService.withUpload] at hr ⊢
        rw [← hr]
      · have hlength : ({ d with fileIds := d.fileIds ++ [id] } : TransferData).fileIds.length =
            d.fileIds.length + 1 := by simp
        have hrest := ih record' { d with fileIds := d.fileIds ++ [id] } hrecord' hsnapshot
          hnone hfew
          (by rw [hlength]; omega)
        rw [hlength] at hrest
        exact hrest w hw howns

/-- When every part was uploaded, the request restores the archive. -/
theorem restores_importRequestOf {uploads : String → Option Bytes} {record : TransferRecord}
    {snapshot : TransferSnapshot} {sent : SessionImport}
    (h : record.data.Sound deployment uploads) (hsnapshot : record.data.snapshot = some snapshot)
    (hall : record.data.totalParts ≤ record.data.fileIds.length)
    (hsent : TransferService.importRequestOf snapshot record = .ok sent) :
    sent.Restores deployment uploads snapshot.archive := by
  intro environment henvironment
  rw [TransferService.importRequestOf] at hsent
  split at hsent
  · next hnone =>
    cases hsent
    rw [hnone] at henvironment
    cases henvironment
  next hosted hhosted =>
    obtain ⟨command, hcommand, hsent⟩ := eq_ok_of_bind hsent
    cases hsent
    obtain rfl := Option.some.inj henvironment
    rw [TransferService.restoreWorkspaceCommand] at hcommand
    split at hcommand
    · cases hcommand
    cases hcommand
    have htotal : record.plan.totalParts = partCount snapshot.archive :=
      h.total snapshot hsnapshot (by rw [hhosted]; exact Option.some_ne_none _)
    have hlength : record.fileIds.length = partCount snapshot.archive := by
      have hbounded := h.bounded
      simp only [TransferRecord.data] at hbounded hall
      omega
    refine ⟨(List.range (partCount snapshot.archive)).map (archivePart snapshot.archive), ?_,
      flatten_parts _, ?_⟩
    · refine List.ext_getElem? fun i ↦ ?_
      simp only [List.map_map, List.getElem?_map, List.getElem?_mapIdx]
      rcases lt_or_ge i record.fileIds.length with hlt | hge
      · have hpart := h.parts snapshot hsnapshot i record.fileIds[i] (List.getElem?_eq_getElem hlt)
        rw [List.getElem?_eq_getElem hlt, List.getElem?_range (by omega)]
        simp [hpart]
      · rw [List.getElem?_eq_none hge, List.getElem?_eq_none (by simp; omega)]
        rfl
    · simp [htotal, h.digest snapshot hsnapshot]

/-- The request is saved, sent, and answered. -/
theorem meets_sendImport {d : TransferData} {snapshot : TransferSnapshot} {sent : SessionImport}
    (hsnapshot : d.snapshot = some snapshot)
    (hsaved : d.importRequest = none ∨ d.importRequest = some sent)
    (hrestores : ∀ uploads, d.Sound deployment uploads →
      sent.Restores deployment uploads snapshot.archive) :
    (transferSetting deployment).Meets p (Owns p.1 (some d)) (TransferService.sendImport sent)
      (fun _ _ ↦ True) fun _ _ ↦ True := by
  let d' : TransferData := { d with importRequest := some sent }
  refine Meets.bind (M := fun _ w ↦ Owns p.1 (some d') w) ((meets_update_owned d'
    (fun r hr ↦ ?_) (stable_owns _) (fun _ h ↦ h) (fun w _ _ _ hsound ↦ ?_)
    fun other hother ↦ ?_).conseq (fun _ _ h ↦ h) (fun _ _ _ h ↦ h.2) fun _ _ _ h ↦ h) fun _ ↦ ?_
  · subst hr
    rfl
  · refine ⟨fun hempty ↦ ?_, hsound.few, hsound.bounded, hsound.digest, hsound.total, hsound.parts,
      fun s other hs hother ↦ ?_⟩
    · rw [show d'.snapshot = d.snapshot from rfl, hsnapshot] at hempty
      cases hempty
    · obtain rfl := Option.some.inj (hsnapshot.symm.trans hs)
      obtain rfl := Option.some.inj hother
      exact hrestores _ hsound
  · rcases hsaved with hnone | hsome
    · rw [hnone] at hother
      cases hother
    · exact (hsome.symm.trans hother) ▸ rfl
  · refine Meets.bind (meets_tryRequest ((meets_importSession rfl).conseq (fun _ _ h ↦ h)
      (fun _ _ _ _ _ _ ↦ trivial) fun _ _ _ h ↦ h)) fun id ↦ ?_
    refine Meets.bind (meets_update_progress (fun _ ↦ rfl) stable_true fun _ _ _ _ _ _ ↦ trivial)
      fun _ ↦ meets_ret fun _ _ _ ↦ trivial

theorem meets_buildRequest {record : TransferRecord} {snapshot : TransferSnapshot}
    (hsnapshot : record.data.snapshot = some snapshot) (hnone : record.data.importRequest = none)
    (hfew : record.data.totalParts ≤ TransferService.maxParts) :
    (transferSetting deployment).Meets p (Owns p.1 (some record.data))
      (TransferService.buildRequest snapshot record)
      (fun sent w ↦ ∃ d, Owns p.1 (some d) w ∧ d.snapshot = some snapshot ∧
        d.importRequest = none ∧ ∀ uploads, d.Sound deployment uploads →
          sent.Restores deployment uploads snapshot.archive) fun _ _ ↦ True := by
  have hstable : (transferSetting deployment).Stable p (Owns p.1 (some record.data)) :=
    stable_owns _
  refine Meets.bind (meets_preflight _ hstable) fun _ ↦ ?_
  refine Meets.bind (meets_update_progress (data_withStatus _ _) hstable
    fun _ _ h hdata hworking halive ↦ h.keep hdata hworking halive) fun _ ↦ ?_
  refine Meets.bind (meets_uploadParts (TransferService.maxParts - record.data.fileIds.length)
    record record.data rfl hsnapshot hnone hfew (by omega)) fun uploaded ↦ ?_
  intro w hw ⟨d, hd, howns, hsnapshot', hnone', hall⟩
  subst hd
  cases hsent : TransferService.importRequestOf snapshot uploaded with
  | error failure => exact meets_raise (P := fun _ ↦ True) (fun _ _ _ ↦ trivial) w hw trivial
  | ok sent =>
    exact ⟨uploaded.data, howns, hsnapshot', hnone', fun uploads hsound ↦
      restores_importRequestOf hsound hsnapshot' hall hsent⟩

theorem meets_copy {d : TransferData} :
    (transferSetting deployment).Meets p (Owns p.1 (some d)) TransferService.copy (fun _ _ ↦ True)
      fun _ _ ↦ True := by
  refine Meets.bind meets_required_owned fun current w hw ⟨howns, hd, hsound⟩ ↦ ?_
  subst hd
  dsimp only
  cases hsnapshot : current.value.snapshot with
  | none => exact meets_raise (P := fun _ ↦ True) (fun _ _ _ ↦ trivial) w hw trivial
  | some snapshot =>
    have hdata : current.value.data.snapshot = some snapshot := hsnapshot
    dsimp only
    split
    · exact meets_raise (P := fun _ ↦ True) (fun _ _ _ ↦ trivial) w hw trivial
    cases hrequest : current.value.importRequest with
    | some sent =>
      exact meets_sendImport hdata (.inr hrequest)
        (fun uploads hsound ↦ hsound.imported snapshot sent hdata hrequest) w hw howns
    | none =>
      refine Meets.bind (meets_buildRequest hdata hrequest hsound.few) (fun sent ↦ ?_) w hw howns
      intro w' hw' ⟨d', howns', hsnapshot', hnone', hrestores⟩
      exact meets_sendImport hsnapshot' (.inl hnone') hrestores w' hw' howns'

/-! ## The requests of a work

What a work asks for, wherever it stands: none of it schedules another one. -/

/-- Requests that leave the calls and the works alone. -/
def TransferEffect.OfWork : TransferEffect → Prop
  | .enter | .takeWork | .schedule _ | .finish | .restart => False
  | _ => True

/-- What a work asks does not end it. -/
theorem works_of_handle {e : TransferEffect} {x : TransferChoice} {a : e.Answer} (he : e.OfWork)
    (h : handleTransfer pid e x w = some (a, w')) (hworks : Works pid w) : Works pid w' := by
  have hsame : w'.working = w.working ∧ w'.alive = w.alive := by
    have hanswer : w.answer pid e x = some (a, w') := by
      cases e <;> first
        | contradiction
        | (simp only [handleTransfer] at h
           split at h
           · exact h
           · cases h)
    have hsettled : ∀ {next : Option TransferWorld} {fate : Fate} {r : Reply} {t : TransferWorld},
        fate.settle next w = (r, t) → (∀ t', next = some t' → t'.working = w.working ∧
          t'.alive = w.alive) → t.working = w.working ∧ t.alive = w.alive := by
      intro next fate r t hsettle hnext
      rcases Fate.settle_cases hsettle with ⟨hsome, -⟩ | ⟨rfl, -⟩
      · exact hnext t hsome
      · exact ⟨rfl, rfl⟩
    cases e <;> try contradiction
    case putRecord expected value =>
      refine hsettled (Option.some.inj hanswer) fun t ht ↦ ?_
      obtain ⟨slot, -, rfl⟩ := Option.map_eq_some_iff.mp ht
      exact ⟨rfl, rfl⟩
    case upload index content =>
      simp only [TransferWorld.answer] at hanswer
      generalize hsettle : x.fate.settle (w.upload x.text content) w = outcome at hanswer
      obtain ⟨r, t⟩ := outcome
      have ht : t.working = w.working ∧ t.alive = w.alive := by
        refine hsettled hsettle fun t ht ↦ ?_
        rw [TransferWorld.upload] at ht
        split at ht
        · obtain rfl := Option.some.inj ht
          exact ⟨rfl, rfl⟩
        · cases ht
      cases r <;>
        · cases hanswer
          exact ht
    all_goals
      cases hanswer
      exact ⟨rfl, rfl⟩
  rw [Works, hsame.1, hsame.2]
  exact hworks

theorem within_attempt {α : Type} {R : TransferEffect → Prop}
    {m : TransferProg (Except ServiceFailure α)} (hm : m.Within R) :
    (TransferService.attempt m).Within R := by
  refine hm.bind fun r ↦ ?_
  cases r with
  | ok a => trivial
  | error failure => trivial

theorem within_request {R : TransferEffect → Prop} {e : TransferEffect} (he : R e) :
    (TransferService.request e).Within R := within_perform he

theorem within_required : TransferService.required.Within TransferEffect.OfWork := by
  refine Within.bind (within_request trivial) fun slot ↦ ?_
  cases slot with
  | none => trivial
  | some record => trivial

theorem within_update (change : TransferRecord → TransferRecord) :
    (TransferService.update change).Within TransferEffect.OfWork := by
  refine within_required.bind fun current ↦ ?_
  refine Within.bind (Within.bind (within_request trivial) fun r ↦ ?_) fun _ ↦ trivial
  cases r with
  | done => trivial
  | conflict => trivial
  | unknown => trivial

theorem within_preflight (model : String) :
    (TransferService.preflight model).Within TransferEffect.OfWork := by
  refine Within.bind (within_attempt (within_request trivial)) fun capabilities ↦ ?_
  split
  · trivial
  · refine Within.bind (within_attempt (within_request trivial)) fun models ↦ ?_
    split
    · trivial
    · trivial

theorem within_prepare : (TransferService.prepare deployment).Within TransferEffect.OfWork := by
  refine within_required.bind fun current ↦ ?_
  refine (within_update _).bind fun _ ↦ ?_
  refine Within.bind (within_attempt (within_request trivial)) fun source ↦ ?_
  refine (within_preflight _).bind fun capabilities ↦ ?_
  refine Within.bind (within_attempt (within_request trivial)) fun snapshot ↦ ?_
  split
  · trivial
  · exact (within_update _).bind fun _ ↦ trivial

theorem within_uploadParts (archive : Bytes) (remaining : ℕ) :
    ∀ record index, (TransferService.uploadParts archive record index remaining).Within
      TransferEffect.OfWork := by
  induction remaining with
  | zero =>
    intro record index
    trivial
  | succ remaining ih =>
    intro record index
    rw [TransferService.uploadParts]
    split
    · refine Within.bind (within_attempt (within_request trivial)) fun id ↦ ?_
      exact (within_update _).bind fun record' ↦ ih record' (index + 1)
    · trivial

theorem within_sendImport (sent : SessionImport) :
    (TransferService.sendImport sent).Within TransferEffect.OfWork := by
  refine (within_update _).bind fun _ ↦ ?_
  refine Within.bind (within_attempt (within_request trivial)) fun id ↦ ?_
  exact (within_update _).bind fun _ ↦ trivial

theorem within_copy : TransferService.copy.Within TransferEffect.OfWork := by
  refine within_required.bind fun current ↦ ?_
  dsimp only
  cases current.value.snapshot with
  | none => trivial
  | some snapshot =>
    dsimp only
    split
    · trivial
    cases current.value.importRequest with
    | some sent => exact within_sendImport sent
    | none =>
      refine Within.bind ?_ fun sent ↦ within_sendImport sent
      refine (within_preflight _).bind fun _ ↦ (within_update _).bind fun _ ↦ ?_
      refine (within_uploadParts _ _ _ _).bind fun uploaded ↦ ?_
      cases TransferService.importRequestOf snapshot uploaded with
      | ok sent => trivial
      | error failure => trivial

/-! ## Methods -/

/-- The work is the same one until it finishes, however it ends. -/
theorem meets_finallyFinish {m : TransferProg Unit} (hwithin : m.Within TransferEffect.OfWork)
    (hm : (transferSetting deployment).Meets p P m (fun _ _ ↦ True) fun _ _ ↦ True) :
    (transferSetting deployment).Meets p (fun w ↦ Works p.1 w ∧ P w)
      (TransferService.finallyFinish m) (fun _ _ ↦ True) fun _ _ ↦ True := by
  have hcaught : (transferSetting deployment).Meets p P
      (Prog.catching (Except.ok <$> m) fun failure ↦
        (pure (.error failure) : TransferProg (Except ServiceFailure Unit)))
      (fun _ _ ↦ True) fun _ _ ↦ True :=
    Meets.catching (Meets.bind hm fun _ ↦ meets_ret fun _ _ _ ↦ trivial) fun _ ↦
      meets_ret fun _ _ _ ↦ trivial
  have hcaughtWithin : (Prog.catching (Except.ok <$> m) fun failure ↦
      (pure (.error failure) : TransferProg (Except ServiceFailure Unit))).Within
        TransferEffect.OfWork := by
    refine Within.catching (Within.bind hwithin fun _ ↦ ?_) fun failure ↦ ?_
    · trivial
    · trivial
  have hframed := hcaught.frame_within stable_works
    (fun _ _ _ _ _ he _ _ _ ha _ h ↦ works_of_handle he ha h) hcaughtWithin
  refine Meets.bind (hframed.conseq (fun _ _ h ↦ h) (fun _ _ _ h ↦ h.1) fun _ _ _ _ ↦ trivial)
    fun outcome ↦ ?_
  refine Meets.bind meets_finish fun _ ↦ ?_
  exact yields_ofExcept (F := fun _ ↦ True) fun _ _ ↦ trivial

theorem yields_failed (failure : ServiceFailure) :
    (transferSetting deployment).Yields p
      (do let _ ← TransferService.update
            (TransferService.withStatus .failed (some (TransferService.failureText failure)))
          pure () : TransferProg Unit) fun _ ↦ True :=
  Meets.bind (meets_update_progress (data_withStatus _ _) stable_true fun _ _ _ _ _ _ ↦ trivial)
    fun _ ↦ meets_ret fun _ _ _ ↦ trivial

theorem yields_work :
    (transferSetting deployment).Yields p (TransferService.work deployment) fun _ ↦ True := by
  refine Meets.bind meets_takeWork fun upload w hw ⟨d, howns, hnone⟩ ↦ ?_
  have hbody : (transferSetting deployment).Meets p (Owns p.1 (some d))
      (if upload then TransferService.copy else TransferService.prepare deployment)
      (fun _ _ ↦ True) fun _ _ ↦ True := by
    cases upload with
    | true => exact meets_copy
    | false => exact meets_prepare (hnone rfl)
  have hwithin : (if upload then TransferService.copy
      else TransferService.prepare deployment).Within TransferEffect.OfWork := by
    cases upload with
    | true => exact within_copy
    | false => exact within_prepare
  refine meets_finallyFinish ?_ (Meets.catching hbody yields_failed) w hw
    ⟨fun halive ↦ (howns halive).1, howns⟩
  exact Within.catching hwithin fun failure ↦ (within_update _).bind fun _ ↦ trivial

theorem yields_retrieve :
    (transferSetting deployment).Yields p TransferService.retrieve fun _ ↦ True := by
  refine Meets.bind (meets_required stable_true fun _ _ _ _ _ _ ↦ trivial) fun current ↦ ?_
  exact Meets.bind (meets_read_keeping trivial stable_true) fun active ↦
    meets_ret fun _ _ _ ↦ trivial

theorem yields_execute :
    (transferSetting deployment).Yields p TransferService.execute fun _ ↦ True := by
  refine yields_enter.bind fun _ _ ↦ ?_
  refine Meets.bind (M := fun _ w ↦ w.data ≠ none)
    (meets_required stable_true fun w current _ _ _ hrecord ↦ ?_) fun current ↦ ?_
  · rw [TransferWorld.data, hrecord]
    exact Option.some_ne_none _
  have hstable : (transferSetting deployment).Stable p fun w ↦ w.data ≠ none :=
    permanent_created.stable
  split
  · exact meets_ret fun _ _ _ ↦ trivial
  refine Meets.bind (meets_read_keeping trivial hstable) fun active ↦ ?_
  split
  · exact meets_ret fun _ _ _ ↦ trivial
  refine Meets.bind (meets_update_progress (fun record ↦ data_withStatus _ _ record) hstable
    fun _ _ h hdata _ _ ↦ hdata ▸ h) fun _ ↦ ?_
  exact Meets.bind (meets_schedule _) fun _ ↦ yields_retrieve

/-- A new record. -/
theorem meets_put_new {plan : TransferPlan} (htotal : plan.totalParts = 0) :
    (transferSetting deployment).Meets p (fun _ ↦ True)
      (TransferService.put 0 ⟨plan, none, [], none⟩) (fun _ w ↦ w.data ≠ none) fun _ _ ↦ True := by
  refine Meets.bind (M := fun r w ↦ r = .done → w.data ≠ none)
    (meets_perform stable_true fun w x a w' hw _ _ ha ↦ ?_) fun r ↦ ?_
  · simp only [transferSetting, transferService, handleTransfer] at ha
    split at ha
    swap
    · cases ha
    rcases Fate.settle_cases (Option.some.inj ha) with ⟨hnext, -⟩ | ⟨rfl, hne⟩
    swap
    · exact ⟨hw, .refl p.1 _, fun hdone ↦ absurd hdone hne⟩
    obtain ⟨slot, hput, rfl⟩ := Option.map_eq_some_iff.mp hnext
    obtain ⟨hrevision, rfl⟩ := Slot.put_eq_some.mp hput
    have hnone : w.record = none := by
      cases hrecord : w.record with
      | none => rfl
      | some record =>
        have hpos := hw.counted record hrecord
        rw [hrecord, Slot.revision_some] at hrevision
        omega
    have hdata : w.data = none := by rw [TransferWorld.data, hnone]; rfl
    -- Nothing is scheduled before there is a record.
    have hidle : w.scheduled = [] ∧ w.working = [] := by
      constructor
      · by_contra h
        exact hw.created (.inl h) hdata
      · by_contra h
        exact hw.created (.inr h) hdata
    have hsound : TransferData.Sound deployment w.uploads ⟨none, [], none, plan.totalParts⟩ := by
      refine ⟨fun _ ↦ ⟨rfl, rfl⟩, ?_, Nat.zero_le _, ?_, ?_, ?_, ?_⟩
      · rw [htotal]
        exact Nat.zero_le _
      all_goals
        intro snapshot
        simp
    refine ⟨⟨fun d hd ↦ ?_, fun sent hsent ↦ ?_, hw.single, hw.idle, fun _ d hd ↦ ?_, fun r hr ↦ ?_,
      fun _ h ↦ by cases h⟩, ⟨?_, fun _ _ h ↦ h, fun other _ h ↦ ?_, fun _ _ h ↦ h⟩,
      fun _ h ↦ by cases h⟩
    · obtain rfl := Option.some.inj hd
      exact hsound
    · obtain ⟨d, hd, -⟩ := hw.sent sent hsent
      rw [hdata] at hd
      cases hd
    · obtain rfl := Option.some.inj hd
      rfl
    · obtain rfl := Option.some.inj hr
      exact Nat.succ_pos _
    · rw [hnone]
      constructor <;> simp
    · rw [hidle.2] at h
      cases h
  · cases r with
    | done => exact meets_ret fun _ _ h ↦ h rfl
    | conflict => exact meets_raise fun _ _ _ ↦ trivial
    | unknown => exact meets_raise fun _ _ _ ↦ trivial

theorem yields_create_transfer (sourceSessionId : String) (destination : TransferDestination)
    (model : Option String) :
    (transferSetting deployment).Yields p
      (TransferService.create sourceSessionId destination model) fun _ ↦ True := by
  refine yields_enter.bind fun _ _ ↦ ?_
  refine Meets.bind (meets_tryRequest_keeping (meets_read_keeping trivial stable_true))
    fun source ↦ ?_
  refine Meets.bind (meets_put_new rfl) fun _ ↦ ?_
  exact Meets.bind (meets_schedule _) fun _ ↦ meets_ret fun _ _ _ ↦ trivial

end

/-! ## Runs

The parts and the request are read off the invariant, in every state that is reached. -/

theorem transfers_verified (deployment : TransferDeployment) :
    (transferSetting deployment).Verified .fresh (fun _ _ _ ↦ True) fun _ _ _ ↦ True where
  init := by
    constructor
    · intro d hd
      cases hd
    · intro sent hsent
      cases hsent
    · exact Nat.zero_le _
    · exact fun _ ↦ ⟨rfl, rfl⟩
    · intro hmem
      cases hmem
    · intro record hrecord
      cases hrecord
    · intro hbusy
      exact absurd hbusy (by simp [TransferWorld.fresh])
  body := by
    rintro ⟨pid, call⟩
    suffices h : (transferSetting deployment).Yields (pid, call) (transferBody deployment call)
        fun _ ↦ True from fun w hw _ ↦ h w hw trivial
    cases call with
    | create => exact (yields_create_transfer _ _ _).bind fun _ _ ↦ yields_ret trivial
    | execute => exact yields_execute.bind fun _ _ ↦ yields_ret trivial
    | retrieve =>
      exact yields_enter.bind fun _ _ ↦ yields_retrieve.bind fun _ _ ↦ yields_ret trivial
    | work => exact yields_work.bind fun _ _ ↦ yields_ret trivial
    | restart => exact yields_restart.bind fun _ _ ↦ yields_ret trivial
  post_stable _ _ := stable_true
  fail_stable _ _ := stable_true

/-- The ids of the record are those of the parts, and one request was sent, which restores the
archive from them. -/
structure TransferHolds (deployment : TransferDeployment) (w : TransferWorld) : Prop where
  bounded : ∀ record, w.record = some record →
    record.value.fileIds.length ≤ record.value.plan.totalParts
  parts : ∀ record, w.record = some record → ∀ (i : ℕ) (id : String),
    record.value.fileIds[i]? = some id → ∃ snapshot, record.value.snapshot = some snapshot ∧
      w.uploads id = some (archivePart snapshot.archive i)
  restores : ∀ sent ∈ w.imports, ∃ record snapshot, w.record = some record ∧
    record.value.snapshot = some snapshot ∧ sent.Restores deployment w.uploads snapshot.archive
  same : ∀ sent ∈ w.imports, ∀ other ∈ w.imports, sent = other

/-- **A transfer uploads each part once and imports one request**, in every run of the
discipline. -/
theorem transfer_holds {deployment : TransferDeployment}
    {c : Config TransferWorld TransferEffect TransferEffect.Answer ServiceFailure
      (Option TransferPlan) TransferCall}
    (hc : Reachable (transferService deployment) transferDiscipline .fresh c) :
    TransferHolds deployment c.state := by
  have hw : c.state.Consistent deployment := ((transfers_verified deployment).reachable hc).inv
  have hdata : ∀ record, c.state.record = some record → c.state.data = some record.value.data := by
    intro record hrecord
    rw [TransferWorld.data, hrecord]
    rfl
  constructor
  · intro record hrecord
    exact (hw.data _ (hdata record hrecord)).bounded
  · -- Only a record with a snapshot lists files.
    intro record hrecord i id hid
    have hsound := hw.data _ (hdata record hrecord)
    cases hsnapshot : record.value.snapshot with
    | none =>
      have hempty : record.value.fileIds = [] := (hsound.empty hsnapshot).1
      rw [hempty] at hid
      cases hid
    | some snapshot => exact ⟨snapshot, rfl, hsound.parts snapshot hsnapshot i id hid⟩
  · intro sent hsent
    obtain ⟨d, hd, himport⟩ := hw.sent sent hsent
    obtain ⟨record, hrecord, rfl⟩ := Option.map_eq_some_iff.mp hd
    have hsound := hw.data _ hd
    cases hsnapshot : record.value.snapshot with
    | none =>
      have hnone : record.value.data.importRequest = none := (hsound.empty hsnapshot).2
      rw [hnone] at himport
      cases himport
    | some snapshot =>
      exact ⟨record, snapshot, hrecord, hsnapshot, hsound.imported snapshot sent hsnapshot himport⟩
  · -- Both requests are the one that the record plans, and the record has no other.
    intro sent hsent other hother
    obtain ⟨d, hd, himport⟩ := hw.sent sent hsent
    obtain ⟨d', hd', himport'⟩ := hw.sent other hother
    obtain rfl := Option.some.inj (hd.symm.trans hd')
    exact Option.some.inj (himport.symm.trans himport')

/-! ## A run -/

def sampleDeployment : TransferDeployment where
  transferId := "transfer"
  sha256 archive := "digest of " ++ toString archive
  historyBytes _ := 0
  requestBytes _ := 0
  acceptsImport _ := true

/-- What the environment answers wherever it is asked. -/
def sampleAnswer (id : String) : TransferChoice :=
  { text := id
    source := ⟨"session", "model", true⟩
    models := ["model"]
    snapshot := ⟨[], [], "model", "agent", "metadata", [], "configuration", [1, 2, 3], 1, 3⟩ }

/-- So many answers to a call. -/
def sampleAnswers (pid : ℕ) (id : String) (count : ℕ) : List (Event TransferCall TransferChoice) :=
  List.replicate count (.resume pid (sampleAnswer id))

/-- A transfer is created and prepared. -/
def samplePrepared : List (Event TransferCall TransferChoice) :=
  .start 0 (.create "session" ⟨"https://destination.example/v1", "us-west-2"⟩ none) ::
    sampleAnswers 0 "" 4 ++ .start 1 .work :: sampleAnswers 1 "" 11

/-- The transfer is executed, and its copy runs until it has sent its import request. -/
def sampleTransfer : List (Event TransferCall TransferChoice) :=
  samplePrepared ++ .start 2 .execute :: sampleAnswers 2 "" 6 ++ .start 4 .work ::
    sampleAnswers 4 "part" 12

instance : transferDiscipline.Checked where
  starts _ _ _ := .isTrue trivial
  answers _ e x w := by
    cases e <;> simp only [transferDiscipline] <;> infer_instance

theorem sampleTransfer_holds :
    ∃ c, (transferService sampleDeployment).run transferDiscipline sampleTransfer
        (.initial .fresh) = some c ∧
      c.state.imports.length = 1 ∧ TransferHolds sampleDeployment c.state := by
  have hrun : ((transferService sampleDeployment).run transferDiscipline sampleTransfer
      (.initial .fresh)).map (fun c ↦ c.state.imports.length) = some 1 := by decide
  obtain ⟨c, hc, hsent⟩ := Option.map_eq_some_iff.mp hrun
  exact ⟨c, hc, hsent, transfer_holds (leads_of_run hc)⟩

/-- Two executions find the transfer inactive, and each schedules a copy. -/
def sampleCopies : List (Event TransferCall TransferChoice) :=
  samplePrepared ++ .start 2 .execute :: sampleAnswers 2 "" 3 ++ .start 3 .execute ::
    sampleAnswers 3 "" 6 ++ sampleAnswers 2 "" 3 ++ .start 4 .work :: sampleAnswers 4 "" 2 ++
    .start 5 .work :: sampleAnswers 5 "" 2 ++ sampleAnswers 4 "part" 7 ++
    sampleAnswers 5 "again" 7 ++ sampleAnswers 4 "" 3 ++ sampleAnswers 5 "" 3

/-- The first part is uploaded twice, and two different requests are sent. -/
theorem part_uploaded_twice :
    ∃ c, Reachable (transferService sampleDeployment) .free .fresh c ∧
      c.state.record.map (fun record ↦ (record.value.fileIds, record.value.plan.totalParts)) =
        some (["part", "again"], 1) ∧
      c.state.imports.map (fun sent ↦ sent.environment.map fun environment ↦
        environment.files.map (·.fileId)) = [some ["part"], some ["part", "again"]] := by
  have hrun : ((transferService sampleDeployment).run .free sampleCopies (.initial .fresh)).map
      (fun c ↦ (c.state.record.map fun record ↦
          (record.value.fileIds, record.value.plan.totalParts),
        c.state.imports.map fun sent ↦ sent.environment.map fun environment ↦
          environment.files.map (·.fileId))) =
      some (some (["part", "again"], 1), [some ["part"], some ["part", "again"]]) := by
    decide
  obtain ⟨c, hc, hfacts⟩ := Option.map_eq_some_iff.mp hrun
  obtain ⟨hrecord, himports⟩ := Prod.mk.inj hfacts
  exact ⟨c, leads_of_run hc, hrecord, himports⟩

end RatThings
