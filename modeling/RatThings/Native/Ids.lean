import Mathlib.Control.Monad.Basic
import Mathlib.Data.List.Nodup
import RatThings.Library.Separator
import RatThings.Native.Changes

/-!
# Ids are handed out once

Runs of a Session write a history whose entries are numbered. A run reserves a range of ids in the
record of the runtime, and its storage hands them out one by one. Runs end and begin while requests
of earlier ones are still on their way, and a reservation may be asked for twice.

## The invariant

A reservation takes the ids above the high-water mark, and raises the mark over them; a commit only
raises it. So the ranges of different reservations are disjoint, whoever made them
(`NativeReservation.Apart`). A storage hands out the ids of ranges whose requests it named itself,
each of them once: `Holding` is the rest of a range of its own, and `Spent` what it knows of the
ids that are gone. That no other call hands out ids of a range is `NativeWorld.Draws`, which is what
the calls guarantee each other.

## What is assumed

What Pi writes is decided outside: it only contains ids that were handed out, or that are in the
history already, or the first one, which every history has. Random names are new. Both stand in
`idDiscipline`.
-/

namespace RatThings

open Concurrent Service Setting

/-! ## History -/

structure IdHistory where
  /-- Who drew which random name. -/
  issued : List (ℕ × String)
  minted : List ℕ
deriving DecidableEq, Repr

structure NativeChoice where
  uuid : String := ""
  request : StorageRequest := .close
deriving DecidableEq, Repr

def nativeAnswer (pid : ℕ) :
    (q : NativeAsk) → NativeChoice → IdHistory → Option (q.Answer × IdHistory)
  | .randomUUID, x, history =>
    some (x.uuid, { history with issued := history.issued ++ [(pid, x.uuid)] })
  | .nextRequest, x, history => some (x.request, history)
  | .minted id, _, history => some ((), { history with minted := history.minted ++ [id] })

def nativeSurroundings : Surroundings NativeKey NativeValue NativeAsk NativeAsk.Answer IdHistory
    NativeChoice where
  answer := nativeAnswer
  observe _ _ _ history := history

abbrev NativeWorld : Type := RecordWorld NativeKey NativeValue IdHistory

def nativeService (codec : NativeCodec) := nativeSurroundings.service (nativeBody codec)

/-- The ids were handed out, or are in the history. -/
def Known (writes : List StorageWrite) (w : NativeWorld) : Prop :=
  ∀ write ∈ writes, write.id ≤ 1 ∨ write.id ∈ w.ghost.minted ∨
    ∃ id record, w.records (.commit id) = some record ∧ write.id ∈ record.value.writes.map (·.id)

/-- Random names are new, and what is written contains known ids. -/
def idDiscipline : Discipline NativeWorld (RecordEffect NativeKey NativeValue NativeAsk) NativeCall
    (RecordChoice NativeChoice) where
  starts _ call w :=
    match call with
    | .commit _ change => Known change.writes w
    | _ => True
  answers _ e x w :=
    match e with
    | .ask .randomUUID => x.answer.uuid ∉ w.ghost.issued.map Prod.snd
    | .ask .nextRequest => ∀ writes, x.answer.request = .commit writes → Known writes w
    | _ => True

/-! ## Names of reservations -/

theorem colon_notMem_of_validName {name : String} (h : validName name = true) :
    ':' ∉ name.toList := by
  intro hmem
  rw [validName, Bool.and_eq_true, List.all_eq_true] at h
  exact absurd (h.2 ':' hmem) (by decide)

/-- The name of a reservation says which request it was made for. -/
theorem reservationId_requestId {lease lease' : NativeLease} {requestId requestId' : String}
    (hname : validName requestId = true) (hname' : validName requestId' = true)
    (h : lease.reservationId requestId = lease'.reservationId requestId') :
    requestId = requestId' := by
  have hlist := congrArg String.toList h
  simp only [NativeLease.reservationId, String.toList_append] at hlist
  have hcolon : (":" : String).toList = [':'] := rfl
  rw [hcolon, List.append_assoc _ [':'] requestId.toList,
    List.append_assoc _ [':'] requestId'.toList] at hlist
  exact String.toList_inj.mp (eq_of_separator_append hlist (colon_notMem_of_validName hname)
    (colon_notMem_of_validName hname')).2

/-! ## The invariant

Ranges are kept in the record under the names of their requests. The invariant is about all of them,
also those whose caller has forgotten them. -/

def NativeReservation.Has (range : NativeReservation) (id : ℕ) : Prop :=
  range.first ≤ id ∧ id ≤ range.last

/-- No id is in both ranges. -/
def NativeReservation.Apart (range range' : NativeReservation) : Prop :=
  range.last < range'.first ∨ range'.last < range.first

theorem NativeReservation.Apart.not_has {range range' : NativeReservation} (h : range.Apart range')
    {id : ℕ} (hid : range.Has id) : ¬ range'.Has id := by
  rintro ⟨hfirst, hlast⟩
  obtain ⟨hfirst', hlast'⟩ := hid
  rcases h with h | h <;> omega

/-- The mark of the runtime record. -/
def highWaterMark (slot : Slot SessionRuntimeRecord) : ℕ :=
  ((nativeState slot).map (·.highWater)).getD 1

/-- The id is in the range of this request. -/
def NativeWorld.InRange (w : NativeWorld) (requestId : String) (id : ℕ) : Prop :=
  ∃ (lease : NativeLease) (record : Versioned NativeReservation), validName requestId = true ∧
    w.records (.ids (lease.reservationId requestId)) = some record ∧ record.value.Has id

structure NativeWorld.Consistent (w : NativeWorld) : Prop where
  numbered : w.records.Numbered
  mark : 1 ≤ highWaterMark (w.records .runtime)
  bounded : ∀ id record, w.records (.ids id) = some record →
    2 ≤ record.value.first ∧ record.value.last ≤ highWaterMark (w.records .runtime)
  counted : ∀ id record, w.records (.ids id) = some record →
    record.value.last + 1 = record.value.first + record.value.count
  apart : ∀ id id' record record', w.records (.ids id) = some record →
    w.records (.ids id') = some record' → id ≠ id' → record.value.Apart record'.value
  committed : ∀ id record, w.records (.commit id) = some record → ∀ write ∈ record.value.writes,
    write.id ≤ 1 ∨ write.id ∈ w.ghost.minted
  issued : (w.ghost.issued.map Prod.snd).Nodup
  owned : ∀ id ∈ w.ghost.minted, ∃ pid requestId, (pid, requestId) ∈ w.ghost.issued ∧
    w.InRange requestId id
  minted : w.ghost.minted.Nodup

/-- Anything that may happen. -/
structure NativeWorld.Since (w w' : NativeWorld) : Prop where
  records : ∀ k, (w.records k).Precedes (w'.records k)
  reservations : ∀ id record, w.records (.ids id) = some record → w'.records (.ids id) = some record
  commits : ∀ id record, w.records (.commit id) = some record →
    w'.records (.commit id) = some record
  issued : ∀ entry ∈ w.ghost.issued, entry ∈ w'.ghost.issued
  minted : ∀ id ∈ w.ghost.minted, id ∈ w'.ghost.minted

/-- A call hands out ids only of the ranges it has drawn the name of. -/
def NativeWorld.Draws (p : ℕ × NativeCall) (w w' : NativeWorld) : Prop :=
  ∀ id ∈ w'.ghost.minted, id ∈ w.ghost.minted ∨
    ∃ requestId, (p.1, requestId) ∈ w.ghost.issued ∧ w.InRange requestId id

theorem NativeWorld.Since.refl (w : NativeWorld) : w.Since w :=
  ⟨fun _ ↦ .refl _, fun _ _ h ↦ h, fun _ _ h ↦ h, fun _ h ↦ h, fun _ h ↦ h⟩

theorem NativeWorld.Since.trans {w₁ w₂ w₃ : NativeWorld} (h : w₁.Since w₂) (h' : w₂.Since w₃) :
    w₁.Since w₃ :=
  ⟨fun k ↦ (h.records k).trans (h'.records k),
    fun id record hr ↦ h'.reservations id record (h.reservations id record hr),
    fun id record hr ↦ h'.commits id record (h.commits id record hr),
    fun entry he ↦ h'.issued entry (h.issued entry he), fun id hi ↦ h'.minted id (h.minted id hi)⟩

theorem NativeWorld.InRange.since {w w' : NativeWorld} {requestId : String} {id : ℕ}
    (h : w.InRange requestId id) (hsince : w.Since w') : w'.InRange requestId id := by
  obtain ⟨lease, record, hname, hread, hhas⟩ := h
  exact ⟨lease, record, hname, hsince.reservations _ record hread, hhas⟩

/-- An id is in the ranges of one request. -/
theorem NativeWorld.InRange.unique {w : NativeWorld} (hw : w.Consistent)
    {requestId requestId' : String} {id : ℕ} (h : w.InRange requestId id)
    (h' : w.InRange requestId' id) : requestId = requestId' := by
  obtain ⟨lease, record, hname, hread, hhas⟩ := h
  obtain ⟨lease', record', hname', hread', hhas'⟩ := h'
  by_contra hne
  have hother : lease.reservationId requestId ≠ lease'.reservationId requestId' := fun heq ↦
    hne (reservationId_requestId hname hname' heq)
  exact (hw.apart _ _ record record' hread hread' hother).not_has hhas hhas'

/-- A name was drawn by one call. -/
theorem NativeWorld.Consistent.owner_unique {w : NativeWorld} (hw : w.Consistent)
    {pid pid' : ℕ} {name : String} (h : (pid, name) ∈ w.ghost.issued)
    (h' : (pid', name) ∈ w.ghost.issued) : pid = pid' :=
  congrArg Prod.fst (List.inj_on_of_nodup_map hw.issued h h' rfl)

def nativeSpec : RecordSpec NativeKey NativeValue IdHistory NativeCall where
  inv := NativeWorld.Consistent
  since := NativeWorld.Since
  allowed := NativeWorld.Draws
  since_refl := .refl
  since_trans := .trans
  allowed_refl _ _ _ h := .inl h

abbrev nativeSetting (codec : NativeCodec) :=
  nativeSpec.setting nativeSurroundings (nativeBody codec) idDiscipline

/-! ## Changes of the records

What a compare-and-swap of the runtime record, or of the history, may change, and that it keeps the
invariant. -/

section

variable {codec : NativeCodec} {w : NativeWorld} {st : NativeRecords}

theorem highWaterMark_of_read {slot : Slot SessionRuntimeRecord}
    {current : Versioned SessionRuntimeRecord} (h : slot = some current) :
    highWaterMark slot = current.value.highWater := by
  rw [h]
  rfl

theorem Known.since {writes : List StorageWrite} {w w' : NativeWorld} (h : Known writes w)
    (hsince : w.Since w') : Known writes w' := by
  intro write hwrite
  rcases h write hwrite with hone | hminted | ⟨id, record, hread, hmem⟩
  · exact .inl hone
  · exact .inr (.inl (hsince.minted _ hminted))
  · exact .inr (.inr ⟨id, record, hsince.commits id record hread, hmem⟩)

/-- What is in the history already was handed out once. -/
theorem Known.minted {writes : List StorageWrite} (hw : w.Consistent) (h : Known writes w) :
    ∀ write ∈ writes, write.id ≤ 1 ∨ write.id ∈ w.ghost.minted := by
  intro write hwrite
  rcases h write hwrite with hone | hminted | ⟨id, record, hread, hmem⟩
  · exact .inl hone
  · exact .inr hminted
  · obtain ⟨earlier, hearlier, hid⟩ := List.mem_map.mp hmem
    exact hid ▸ hw.committed id record hread earlier hearlier

/-- The reservations and the commits of a change are those that were there, and one more. -/
theorem NativeChange.since {known : NativeCommit → Prop} {call : NativeCall}
    (h : NativeChange codec known call w.records st)
    (hprecedes : ∀ k, (w.records k).Precedes (st k)) :
    w.Since ⟨st, w.ghost⟩ :=
  ⟨hprecedes, fun _ _ hread ↦ h.reservation hread, fun _ _ hread ↦ h.commit hread, fun _ h ↦ h,
    fun _ h ↦ h⟩

/-- A change that leaves the reservations alone, and does not lower the mark. -/
theorem NativeWorld.Consistent.of_same_ids (hw : w.Consistent) (hsince : w.Since ⟨st, w.ghost⟩)
    (hst : st.Numbered) (hids : ∀ id, st (.ids id) = w.records (.ids id))
    (hmark : highWaterMark (w.records .runtime) ≤ highWaterMark (st .runtime))
    (hcommits : ∀ id record, st (.commit id) = some record → ∀ write ∈ record.value.writes,
      write.id ≤ 1 ∨ write.id ∈ w.ghost.minted) :
    NativeWorld.Consistent ⟨st, w.ghost⟩ := by
  refine ⟨hst, hw.mark.trans hmark, fun id record hread ↦ ?_,
    fun id record hread ↦ hw.counted id record ((hids id).symm.trans hread),
    fun id id' record record' hread hread' ↦ ?_, hcommits, hw.issued, fun id hid ↦ ?_, hw.minted⟩
  · obtain ⟨hfirst, hlast⟩ := hw.bounded id record ((hids id).symm.trans hread)
    exact ⟨hfirst, hlast.trans hmark⟩
  · exact hw.apart id id' record record' ((hids id).symm.trans hread)
      ((hids id').symm.trans hread')
  · obtain ⟨pid, requestId, hissued, hrange⟩ := hw.owned id hid
    exact ⟨pid, requestId, hissued, hrange.since hsince⟩

/-- A range that is reserved lies above all others. -/
theorem NativeWorld.Consistent.reserve (hw : w.Consistent) (hsince : w.Since ⟨st, w.ghost⟩)
    (hst : st.Numbered) {id : String} {count : ℕ} {current : Versioned SessionRuntimeRecord}
    (hread : w.records .runtime = some current) (h : Reserves id count current w.records st) :
    NativeWorld.Consistent ⟨st, w.ghost⟩ := by
  have hmark : highWaterMark (w.records .runtime) = current.value.highWater :=
    highWaterMark_of_read hread
  have hmark' : highWaterMark (st .runtime) = current.value.highWater + count :=
    highWaterMark_of_read h.runtime
  have hone : 1 ≤ current.value.highWater := hmark ▸ hw.mark
  have hothers : ∀ id' record, id' ≠ id → st (.ids id') = some record →
      2 ≤ record.value.first ∧ record.value.last ≤ current.value.highWater := by
    intro id' record hne hread'
    rw [← hmark]
    exact hw.bounded id' record ((h.others _ (by simp) (by simpa using hne)).symm.trans hread')
  have hnew : ∀ record, st (.ids id) = some record → record.value =
      ⟨current.value.highWater + 1, current.value.highWater + count, count⟩ := by
    intro record hread'
    rw [h.reserved] at hread'
    cases hread'
    rfl
  refine ⟨hst, hmark' ▸ Nat.le_add_right_of_le hone, fun id' record hread' ↦ ?_,
    fun id' record hread' ↦ ?_, fun id₁ id₂ record record' hread₁ hread₂ hne ↦ ?_,
    fun id' record hread' ↦ ?_, hw.issued, fun id' hid ↦ ?_, hw.minted⟩
  · by_cases hid : id' = id
    · rw [hnew record (hid ▸ hread'), hmark']
      exact ⟨Nat.succ_le_succ hone, le_rfl⟩
    · obtain ⟨hfirst, hlast⟩ := hothers id' record hid hread'
      exact ⟨hfirst, by rw [hmark']; omega⟩
  · by_cases hid : id' = id
    · rw [hnew record (hid ▸ hread')]
      dsimp only
      omega
    · exact hw.counted id' record ((h.others _ (by simp) (by simpa using hid)).symm.trans hread')
  · by_cases hid₁ : id₁ = id
    · have hlast := (hothers id₂ record' (fun h ↦ hne (hid₁.trans h.symm)) hread₂).2
      rw [hnew record (hid₁ ▸ hread₁)]
      exact .inr (by dsimp only; omega)
    · by_cases hid₂ : id₂ = id
      · have hlast := (hothers id₁ record hid₁ hread₁).2
        rw [hnew record' (hid₂ ▸ hread₂)]
        exact .inl (by dsimp only; omega)
      · exact hw.apart id₁ id₂ record record'
          ((h.others _ (by simp) (by simpa using hid₁)).symm.trans hread₁)
          ((h.others _ (by simp) (by simpa using hid₂)).symm.trans hread₂) hne
  · exact hw.committed id' record ((h.others _ (by simp) (by simp)).symm.trans hread')
  · obtain ⟨pid, requestId, hissued, hrange⟩ := hw.owned id' hid
    exact ⟨pid, requestId, hissued, hrange.since hsince⟩

theorem consistent_change {call : NativeCall} (hw : w.Consistent)
    (h : NativeChange codec (fun change ↦ Known change.writes w) call w.records st)
    (hsince : w.Since ⟨st, w.ghost⟩) (hst : st.Numbered) :
    NativeWorld.Consistent ⟨st, w.ghost⟩ := by
  cases h with
  | annotate new own runtime native others =>
    refine hw.of_same_ids hsince hst (fun id ↦ others _ (by simp)) ?_ fun id record hread ↦ ?_
    · rw [highWaterMark, highWaterMark, ← native, runtime]
      exact le_rfl
    · exact hw.committed id record ((others _ (by simp)).symm.trans hread)
  | reserve lease current requestId count own positive name read holds reserves =>
    exact hw.reserve hsince hst read reserves
  | append lease current change own kind read holds appends =>
    refine hw.of_same_ids hsince hst (fun id ↦ appends.others _ (by simp) (by simp)) ?_
      fun id record hread ↦ ?_
    · rw [highWaterMark_of_read read, highWaterMark_of_read appends.runtime]
      exact le_max_left _ _
    · by_cases hid : id = change.commitId
      · subst hid
        rcases appends.written with ⟨-, hnew⟩ | ⟨found, hfound, -, hafter⟩
        · rw [hnew] at hread
          cases hread
          exact kind.minted hw
        · exact hw.committed _ record (hfound.trans (hafter.symm.trans hread))
      · exact hw.committed id record
          ((appends.others _ (by simp) (by simpa using hid)).symm.trans hread)

variable (codec) in
theorem safeNative_ids : SafeNative codec nativeSpec nativeSurroundings
    fun change w ↦ Known change.writes w where
  numbered _ hw := hw.numbered
  records _ _ h := h.records
  reservations _ _ h := h.reservations
  commits _ _ h := h.commits
  known _ _ _ hsince h := h.since hsince
  steps _ _ _ hw h hprecedes hst :=
    have hsince := h.since hprecedes
    ⟨consistent_change hw h hsince hst, hsince, fun _ hid ↦ .inl hid⟩

end

/-! ## A storage

A storage is followed through its loop: reserve when nothing is left, then hand out the next id. -/

/-- The request hands out no id. -/
def Quiet (e : RecordEffect NativeKey NativeValue NativeAsk) : Prop := ∀ id, e ≠ .ask (.minted id)

section

variable {codec : NativeCodec} {lease : NativeLease}

theorem within_get {k : NativeKey} {β : Type} {f : Slot (NativeValue k) → NativeProg β}
    (hf : ∀ slot, (f slot).Within Quiet) : (readNative k >>= f).Within Quiet :=
  (Prog.within_perform fun _ h ↦ nomatch h).bind hf

theorem within_commitWrites {writes : NativeWrites} :
    (commitWrites writes : NativeProg Unit).Within Quiet := by
  refine (Prog.within_perform fun _ h ↦ nomatch h).bind fun reply ↦ ?_
  cases reply <;> trivial

theorem within_active : lease.active.Within Quiet := by
  refine within_get fun slot ↦ ?_
  cases slot with
  | none => trivial
  | some current =>
    dsimp only
    split <;> trivial

theorem within_reserveIds {count : ℕ} {requestId : String} :
    (lease.reserveIds count requestId).Within Quiet := by
  rw [NativeLease.reserveIds]
  split
  · trivial
  · generalize lease.reservationId requestId = id
    generalize (4 : ℕ) = attempts
    induction attempts with
    | zero => trivial
    | succ attempts ih =>
      refine within_active.bind fun current ↦ within_get fun previous ↦ ?_
      cases planNativeReservation current id count (previous.map (·.value)) with
      | reject error => trivial
      | «return» value => trivial
      | write value writes =>
        refine Prog.Within.catching (within_commitWrites.bind fun _ ↦ trivial) fun error ↦ ?_
        split
        · trivial
        · exact ih

theorem within_settleCommit {retry : NativeProg NativeHead} (hretry : retry.Within Quiet)
    (attempts : ℕ) (plan : NativeCommitDecision) :
    (NativeLease.settleCommit retry attempts plan).Within Quiet := by
  cases plan with
  | reject error => trivial
  | «return» head => trivial
  | readExisting => trivial
  | write head writes =>
    refine Prog.Within.catching (within_commitWrites.bind fun _ ↦ trivial) fun error ↦ ?_
    split
    · trivial
    · exact hretry

theorem within_commit {change : NativeCommit} : (lease.commit codec change).Within Quiet := by
  rw [NativeLease.commit]
  split
  · trivial
  split
  · trivial
  · generalize (4 : ℕ) = attempts
    induction attempts with
    | zero => trivial
    | succ attempts ih =>
      refine within_active.bind fun current ↦ ?_
      split
      · exact within_get fun existing ↦ within_settleCommit ih attempts _
      · exact within_settleCommit ih attempts _

/-- The call has drawn the name, and of the ids that were handed out only earlier ones may be in the
range that is reserved under it. -/
def Spent (pid : ℕ) (requestId : String) (next : ℕ) (w : NativeWorld) : Prop :=
  (pid, requestId) ∈ w.ghost.issued ∧
    ∀ id ∈ w.ghost.minted, id < next ∨ ∃ other, other ≠ requestId ∧ w.InRange other id

theorem Spent.mono {pid next next' : ℕ} {requestId : String} {w : NativeWorld}
    (h : Spent pid requestId next w) (hle : next ≤ next') : Spent pid requestId next' w :=
  ⟨h.1, fun id hid ↦ (h.2 id hid).imp_left (·.trans_le hle)⟩

/-- What was handed out meanwhile is in other ranges. -/
theorem Spent.since {pid next : ℕ} {requestId : String} {w w' : NativeWorld}
    (h : Spent pid requestId next w) (hsince : w.Since w')
    (hminted : ∀ id ∈ w'.ghost.minted,
      id ∈ w.ghost.minted ∨ ∃ other, other ≠ requestId ∧ w.InRange other id) :
    Spent pid requestId next w' := by
  refine ⟨hsince.issued _ h.1, fun id hid ↦ ?_⟩
  have hlast : id < next ∨ ∃ other, other ≠ requestId ∧ w.InRange other id :=
    (hminted id hid).elim (h.2 id) .inr
  exact hlast.imp_right fun ⟨other, hne, hrange⟩ ↦ ⟨other, hne, hrange.since hsince⟩

variable {p : ℕ × NativeCall}

theorem stable_spent {requestId : String} {next : ℕ} :
    (nativeSetting codec).Stable p (Spent p.1 requestId next) := by
  rintro q e w w' hq hw - ⟨hsince, hdraws⟩ h
  refine h.since hsince fun id hid ↦ (hdraws id hid).imp_right ?_
  rintro ⟨other, hother, hrange⟩
  refine ⟨other, fun heq ↦ hq ?_, hrange⟩
  exact hw.owner_unique (heq ▸ hother) h.1

/-- A request that hands out no id leaves alone what was handed out. -/
theorem minted_quiet {e : RecordEffect NativeKey NativeValue NativeAsk} {w w' : NativeWorld}
    {x : RecordChoice NativeChoice} {a : e.Answer NativeAsk.Answer} (he : Quiet e)
    (ha : (nativeSetting codec).service.handle p.1 e x w = some (a, w')) :
    w'.ghost.minted = w.ghost.minted := by
  cases e with
  | get k =>
    cases ha
    rfl
  | commit writes =>
    rcases Fate.settle_cases (Option.some.inj ha) with ⟨hnext, -⟩ | ⟨rfl, -⟩
    · obtain ⟨st, -, rfl⟩ := Option.map_eq_some_iff.mp hnext
      rfl
    · rfl
  | ask q =>
    obtain ⟨⟨a', g⟩, hanswer, heq⟩ := Option.map_eq_some_iff.mp ha
    cases heq
    cases q with
    | randomUUID =>
      cases hanswer
      rfl
    | nextRequest =>
      cases hanswer
      rfl
    | minted id => exact absurd rfl (he id)

theorem spent_quiet {requestId : String} {next : ℕ} :
    ∀ ⦃e : RecordEffect NativeKey NativeValue NativeAsk⦄ ⦃w : NativeWorld⦄
      ⦃x : RecordChoice NativeChoice⦄ ⦃a : e.Answer NativeAsk.Answer⦄ ⦃w' : NativeWorld⦄, Quiet e →
      (nativeSetting codec).inv w → (nativeSetting codec).inv w' →
        (nativeSetting codec).discipline.answers p.1 e x w →
          (nativeSetting codec).service.handle p.1 e x w = some (a, w') →
            (nativeSetting codec).guar p e w w' → Spent p.1 requestId next w →
              Spent p.1 requestId next w' := by
  rintro e w x a w' he - - - ha ⟨hsince, -⟩ h
  exact h.since hsince fun id hid ↦ .inl (minted_quiet he ha ▸ hid)

/-- What a storage rests on that has ids to hand out: they are the rest of a range of its own. -/
def Holding (pid : ℕ) (lease : NativeLease) (next limit : ℕ) (w : NativeWorld) : Prop :=
  ∃ requestId record, Spent pid requestId next w ∧ validName requestId = true ∧
    w.records (.ids (lease.reservationId requestId)) = some record ∧ record.value.first ≤ next ∧
      limit = record.value.last + 1

theorem Holding.mono {pid next next' limit : ℕ} {w : NativeWorld}
    (h : Holding pid lease next limit w)
    (hle : next ≤ next') : Holding pid lease next' limit w := by
  obtain ⟨requestId, record, hspent, hname, hread, hfirst, hlimit⟩ := h
  exact ⟨requestId, record, hspent.mono hle, hname, hread, hfirst.trans hle, hlimit⟩

/-- A storage whose range is used up, or which holds the rest of it. -/
def Ready (pid : ℕ) (lease : NativeLease) (storage : PiStorage) (w : NativeWorld) : Prop :=
  storage.limit ≤ storage.next ∨ Holding pid lease storage.next storage.limit w

theorem stable_holding {next limit : ℕ} :
    (nativeSetting codec).Stable p (Holding p.1 lease next limit) := by
  rintro q e w w' hq hw hw' hguar ⟨requestId, record, hspent, hname, hread, hfirst, hlimit⟩
  exact ⟨requestId, record, stable_spent hq hw hw' hguar hspent, hname,
    hguar.1.reservations _ record hread, hfirst, hlimit⟩

theorem stable_ready {storage : PiStorage} :
    (nativeSetting codec).Stable p (Ready p.1 lease storage) :=
  fun _ _ _ _ hq hw hw' hguar h ↦ h.imp_right (stable_holding hq hw hw' hguar)

theorem ready_quiet {storage : PiStorage} :
    ∀ ⦃e : RecordEffect NativeKey NativeValue NativeAsk⦄ ⦃w : NativeWorld⦄
      ⦃x : RecordChoice NativeChoice⦄ ⦃a : e.Answer NativeAsk.Answer⦄ ⦃w' : NativeWorld⦄, Quiet e →
      (nativeSetting codec).inv w → (nativeSetting codec).inv w' →
        (nativeSetting codec).discipline.answers p.1 e x w →
          (nativeSetting codec).service.handle p.1 e x w = some (a, w') →
            (nativeSetting codec).guar p e w w' → Ready p.1 lease storage w →
              Ready p.1 lease storage w' := by
  rintro e w x a w' he hw hw' hx ha hguar (hused | ⟨requestId, record, hspent, hname, hread, hrest⟩)
  · exact .inl hused
  · exact .inr ⟨requestId, record, spent_quiet he hw hw' hx ha hguar hspent, hname,
      hguar.1.reservations _ record hread, hrest⟩

/-- A random name that was just drawn has not been used. -/
theorem meets_randomUUID :
    (nativeSetting codec).Meets p (fun _ ↦ True) (askNative .randomUUID)
      (fun requestId ↦ Spent p.1 requestId 0) fun _ _ ↦ True := by
  refine meets_perform stable_true fun w x a w' hw _ hx ha ↦ ?_
  cases ha
  have hsince : NativeWorld.Since w ⟨w.records, { w.ghost with
      issued := w.ghost.issued ++ [(p.1, x.answer.uuid)] }⟩ :=
    ⟨fun _ ↦ .refl _, fun _ _ h ↦ h, fun _ _ h ↦ h, fun _ h ↦ List.mem_append_left _ h, fun _ h ↦ h⟩
  refine ⟨{ hw with issued := ?_, owned := fun id hid ↦ ?_ }, ⟨hsince, fun _ h ↦ .inl h⟩,
    List.mem_append_right _ List.mem_cons_self, fun id hid ↦ .inr ?_⟩
  · rw [List.map_append, List.nodup_append]
    refine ⟨hw.issued, by simp, fun name hname name' hname' heq ↦ hx ?_⟩
    rw [List.map_singleton, List.mem_singleton] at hname'
    rwa [heq, hname'] at hname
  · obtain ⟨pid, requestId, hissued, hrange⟩ := hw.owned id hid
    exact ⟨pid, requestId, hsince.issued _ hissued, hrange.since hsince⟩
  · obtain ⟨pid, requestId, hissued, hrange⟩ := hw.owned id hid
    refine ⟨requestId, fun heq ↦ hx ?_, hrange.since hsince⟩
    have hname : requestId = x.answer.uuid := heq
    exact hname ▸ List.mem_map_of_mem hissued

/-- The id that is handed out next. -/
theorem meets_mintId {storage : PiStorage} (hown : p.2.lease? = some lease) :
    (nativeSetting codec).Meets p (Ready p.1 lease storage) (PiStorage.mintId lease storage)
      (fun minted w ↦ Holding p.1 lease minted.1 minted.2.limit w ∧ minted.1 < minted.2.limit ∧
        minted.2.next = minted.1 + 1) fun _ _ ↦ True := by
  rw [PiStorage.mintId]
  split
  · refine Meets.bind (meets_randomUUID.pre fun _ _ _ ↦ trivial) fun requestId ↦ ?_
    have hreserve : (nativeSetting codec).Meets p (fun _ ↦ True) (lease.reserveIds 256 requestId)
        (fun range w ↦ validName requestId = true ∧ range.count = 256 ∧
          Reserved (lease.reservationId requestId) range w) fun _ _ ↦ True :=
      (safeNative_ids codec).meets_reserveIds hown
    refine Meets.bind ((hreserve.frame_within (F := Spent p.1 requestId 0) stable_spent spent_quiet
      within_reserveIds).conseq (fun _ _ hp ↦ ⟨hp, trivial⟩) (fun _ _ _ hq ↦ hq)
        fun _ _ _ _ ↦ trivial) fun range ↦ meets_ret ?_
    rintro w hw ⟨hspent, hname, hcount, record, hread, rfl⟩
    have hcounted := hw.counted _ record hread
    refine ⟨⟨requestId, record, hspent.mono (Nat.zero_le _), hname, hread, le_rfl, rfl⟩, ?_, rfl⟩
    dsimp only
    omega
  · next hlimit =>
    refine meets_ret fun w _ hready ↦ ⟨hready.resolve_left hlimit, ?_, rfl⟩
    dsimp only
    omega

/-- An id of the storage's own range has not been handed out. -/
theorem Holding.fresh {pid next limit : ℕ} {w : NativeWorld} (hw : w.Consistent)
    (h : Holding pid lease next limit w) (hlt : next < limit) :
    next ∉ w.ghost.minted ∧
      ∃ requestId, (pid, requestId) ∈ w.ghost.issued ∧ w.InRange requestId next := by
  obtain ⟨requestId, record, hspent, hname, hread, hfirst, rfl⟩ := h
  have hrange : w.InRange requestId next :=
    ⟨lease, record, hname, hread, hfirst, Nat.lt_succ_iff.mp hlt⟩
  refine ⟨fun hmem ↦ ?_, requestId, hspent.1, hrange⟩
  rcases hspent.2 next hmem with hbefore | ⟨other, hne, hother⟩
  · exact lt_irrefl _ hbefore
  · exact hne (hother.unique hw hrange)

theorem meets_minted {id limit : ℕ} (hlt : id < limit) :
    (nativeSetting codec).Meets p (Holding p.1 lease id limit) (askNative (.minted id))
      (fun _ ↦ Holding p.1 lease (id + 1) limit) fun _ _ ↦ True := by
  refine meets_perform stable_holding fun w x a w' hw hholding _ ha ↦ ?_
  cases ha
  have hsince : NativeWorld.Since w
      ⟨w.records, { w.ghost with minted := w.ghost.minted ++ [id] }⟩ :=
    ⟨fun _ ↦ .refl _, fun _ _ h ↦ h, fun _ _ h ↦ h, fun _ h ↦ h, fun _ h ↦ List.mem_append_left _ h⟩
  obtain ⟨hfresh, requestId, hissued, hrange⟩ := hholding.fresh hw hlt
  refine ⟨{ hw with committed := ?_, owned := ?_, minted := ?_ }, ⟨hsince, fun other hmem ↦ ?_⟩, ?_⟩
  · intro commitId record hread write hwrite
    exact (hw.committed commitId record hread write hwrite).imp_right (hsince.minted _)
  · intro other hmem
    rcases List.mem_append.mp hmem with hold | hnew
    · obtain ⟨pid, name, hname, hold⟩ := hw.owned other hold
      exact ⟨pid, name, hname, hold.since hsince⟩
    · exact ⟨p.1, requestId, hissued, List.mem_singleton.mp hnew ▸ hrange.since hsince⟩
  · exact List.nodup_append.mpr ⟨hw.minted, List.nodup_singleton id, fun other hold id' hnew heq ↦
      hfresh (List.mem_singleton.mp hnew ▸ heq ▸ hold)⟩
  · refine (List.mem_append.mp hmem).imp_right fun hnew ↦ ⟨requestId, hissued, ?_⟩
    obtain rfl := List.mem_singleton.mp hnew
    exact hrange
  · obtain ⟨name, record, hspent, hname, hread, hfirst, hlimit⟩ := hholding
    refine ⟨name, record, ⟨hspent.1, fun other hmem ↦ ?_⟩, hname, hread,
      hfirst.trans (Nat.le_succ id),
      hlimit⟩
    rcases List.mem_append.mp hmem with hold | hnew
    · refine (hspent.2 other hold).imp (fun h ↦ h.trans (Nat.lt_succ_self id)) ?_
      exact fun ⟨name', hne, hother⟩ ↦ ⟨name', hne, hother.since hsince⟩
    · exact .inl (List.mem_singleton.mp hnew ▸ Nat.lt_succ_self id)

theorem meets_nextRequest {storage : PiStorage} :
    (nativeSetting codec).Meets p (Ready p.1 lease storage) (askNative .nextRequest)
      (fun request w ↦ Ready p.1 lease storage w ∧ ∀ writes,
        request = .commit writes → Known writes w)
      fun _ _ ↦ True := by
  refine meets_perform stable_ready fun w x a w' hw hready hx ha ↦ ?_
  cases ha
  exact ⟨hw, ⟨.refl w, fun _ h ↦ .inl h⟩, hready, hx⟩

/-- A commit leaves the rest of the range, or less of it. -/
theorem meets_storageCommit {storage : PiStorage} {writes : List StorageWrite}
    (hown : p.2.lease? = some lease) :
    (nativeSetting codec).Meets p (fun w ↦ Ready p.1 lease storage w ∧ Known writes w)
      (PiStorage.commit codec lease storage writes)
      (fun storage' ↦ Ready p.1 lease storage') fun _ _ ↦ True := by
  have hknown : (nativeSetting codec).Permanent (Known writes) :=
    fun _ _ _ _ _ _ hguar h ↦ h.since hguar.1
  rw [PiStorage.commit]
  refine Meets.bind (M := fun _ w ↦ Ready p.1 lease storage w ∧ Known writes w) ?_ fun commitId ↦ ?_
  · have hname : (nativeSetting codec).Meets p (fun _ ↦ True) (askNative .randomUUID)
        (fun requestId ↦ Spent p.1 requestId 0) fun _ _ ↦ True := meets_randomUUID
    refine ((hname.frame hknown).frame_within
      stable_ready ready_quiet ?_).conseq (fun _ _ hp ↦ ⟨hp.1, hp.2, trivial⟩)
        (fun _ _ _ hq ↦ ⟨hq.1, hq.2.1⟩) fun _ _ _ _ ↦ trivial
    exact Prog.within_perform fun _ h ↦ nomatch h
  · refine Meets.bind (((safeNative_ids codec).meets_commit hown).frame_within
      (F := Ready p.1 lease storage) stable_ready ready_quiet within_commit |>.conseq
        (fun _ _ hp ↦ hp) (fun _ _ _ hq ↦ hq.1) fun _ _ _ _ ↦ trivial) fun head ↦ meets_ret ?_
    rintro w - hready
    have hle : storage.next ≤
        if storage.next ≤ PiStorage.storedMax writes then PiStorage.storedMax writes + 1
        else storage.next := by
      split <;> omega
    exact hready.imp (fun hused ↦ hused.trans hle) fun hholding ↦ hholding.mono hle

theorem meets_serve (hown : p.2.lease? = some lease) (requests : ℕ) (storage : PiStorage) :
    (nativeSetting codec).Meets p (Ready p.1 lease storage)
      (PiStorage.serve codec lease requests storage) (fun _ _ ↦ True) fun _ _ ↦ True := by
  induction requests generalizing storage with
  | zero => exact meets_ret fun _ _ _ ↦ trivial
  | succ requests ih =>
    refine Meets.bind meets_nextRequest fun request ↦ ?_
    cases request with
    | close => exact meets_ret fun _ _ _ ↦ trivial
    | mintId =>
      refine Meets.bind ((meets_mintId hown).pre fun _ _ hp ↦ hp.1) fun minted ↦ ?_
      intro w hw ⟨hholding, hlt, hnext⟩
      refine Meets.bind (meets_minted hlt)
        (fun _ ↦ (ih minted.2).pre fun _ _ h ↦ .inr ?_) w hw hholding
      exact hnext ▸ h
    | commit writes =>
      refine Meets.bind ((meets_storageCommit hown).pre fun _ _ hp ↦ ⟨hp.1, hp.2 writes rfl⟩)
        fun storage' ↦ ih storage'

theorem yields_openPiStorage (hown : p.2.lease? = some lease) (requests : ℕ) :
    (nativeSetting codec).Yields p (openPiStorage codec lease requests) fun _ ↦ True := by
  refine Meets.bind ((safeNative_ids codec).meets_load lease) fun image ↦ ?_
  exact (meets_serve hown requests _).pre fun _ _ _ ↦ .inl le_rfl

/-- What a call returns: a reservation is in its record. -/
def NativeCall.Reserves (call : NativeCall) (result : NativeResult) (w : NativeWorld) : Prop :=
  ∀ lease count requestId range,
    call = .reserveIds lease count requestId → result = .reserved range →
    validName requestId = true ∧ Reserved (lease.reservationId requestId) range w

theorem permanent_reserves (call : NativeCall) (result : NativeResult) :
    (nativeSetting codec).Permanent (call.Reserves result) := by
  intro q e w w' hw hw' hguar h lease count requestId range hcall hresult
  obtain ⟨hname, hread⟩ := h lease count requestId range hcall hresult
  exact ⟨hname, (safeNative_ids codec).permanent_reserved _ _ hw hw' hguar hread⟩

/-- A method that does not reserve. -/
theorem noReservation {β : Type} {m : NativeProg β} {result : β → NativeResult}
    (h : (nativeSetting codec).Yields p m fun _ ↦ True)
    (hcall : ∀ lease count requestId, p.2 ≠ .reserveIds lease count requestId) :
    (nativeSetting codec).Meets p (fun _ ↦ True)
      (do let b ← m
          pure (result b))
      p.2.Reserves fun _ _ ↦ True :=
  Meets.bind h fun _ ↦ meets_ret fun _ _ _ lease count requestId _ heq ↦
    absurd heq (hcall lease count requestId)

theorem meets_nativeBody (codec : NativeCodec) (p : ℕ × NativeCall) :
    (nativeSetting codec).Meets p (idDiscipline.starts p.1 p.2) (nativeBody codec p.2) p.2.Reserves
      fun _ _ ↦ True := by
  obtain ⟨pid, call⟩ := p
  have h := safeNative_ids codec
  cases call with
  | claim runId attempt =>
    exact (noReservation (h.yields_claim rfl runId attempt) (by simp)).pre
      fun _ _ _ ↦ trivial
  | close =>
    exact (noReservation (h.yields_closeAttempts rfl 10) (by simp)).pre
      fun _ _ _ ↦ trivial
  | publish runId snapshot =>
    exact (noReservation (h.yields_publish rfl runId snapshot) (by simp)).pre
      fun _ _ _ ↦ trivial
  | publishNative runId seq snapshot =>
    exact (noReservation (h.yields_publishAttempts rfl runId seq snapshot 10)
      (by simp)).pre fun _ _ _ ↦ trivial
  | saveRecovery attempt recoveryExhausted =>
    exact (noReservation (h.yields_saveRecovery rfl attempt recoveryExhausted)
      (by simp)).pre fun _ _ _ ↦ trivial
  | assertActive lease =>
    refine (noReservation (meets_active stable_true fun _ _ _ _ _ _ ↦ meets_ret fun _ _ _ ↦ trivial)
      (by simp)).pre fun _ _ _ ↦ trivial
  | load lease =>
    refine (noReservation ((h.meets_load lease).conseq (fun _ _ hp ↦ hp) (fun _ _ _ _ ↦ trivial)
      fun _ _ _ _ ↦ trivial) (by simp)).pre fun _ _ _ ↦ trivial
  | reserveIds lease count requestId =>
    refine Meets.bind ((h.meets_reserveIds rfl).pre fun _ _ _ ↦ trivial) fun range ↦ meets_ret ?_
    rintro w - ⟨hname, -, hreserved⟩ lease' count' requestId' range' hcall hresult
    cases hcall
    cases hresult
    exact ⟨hname, hreserved⟩
  | commit lease change =>
    refine Meets.bind ((h.meets_commit rfl).pre fun _ _ hp ↦ hp) fun head ↦ meets_ret ?_
    intro w _ _ lease' count' requestId' range' hcall
    cases hcall
  | openPiStorage lease requests =>
    exact (noReservation (yields_openPiStorage rfl requests) (by simp)).pre
      fun _ _ _ ↦ trivial

/-! ## Every run -/

/-- The records of a Session that has not run. -/
def freshNative : NativeWorld := ⟨fun _ ↦ none, ⟨[], []⟩⟩

theorem consistent_freshNative : freshNative.Consistent where
  numbered _ _ h := nomatch h
  mark := le_rfl
  bounded _ _ h := nomatch h
  counted _ _ h := nomatch h
  apart _ _ _ _ h := nomatch h
  committed _ _ h := nomatch h
  issued := List.nodup_nil
  owned _ h := nomatch h
  minted := List.nodup_nil

theorem nativeService_verified (codec : NativeCodec) :
    (nativeSetting codec).Verified freshNative NativeCall.Reserves fun _ _ _ ↦ True where
  init := consistent_freshNative
  body := meets_nativeBody codec
  post_stable p result := (permanent_reserves p.2 result).stable
  fail_stable _ _ := stable_true

abbrev NativeConfig : Type :=
  Config NativeWorld (RecordEffect NativeKey NativeValue NativeAsk)
    (RecordEffect.Answer NativeAsk.Answer) ServiceFailure NativeResult NativeCall

structure HandsOutOnce (codec : NativeCodec) (c : NativeConfig) : Prop where
  /-- No id was handed out twice, by one storage or by two. -/
  minted : c.state.ghost.minted.Nodup
  /-- An id that is handed out is in no write that was committed before. -/
  fresh : ∀ ev (c' : NativeConfig) id, Permits idDiscipline c ev →
    (nativeService codec).step c ev = some c' →
    c'.state.ghost.minted = c.state.ghost.minted ++ [id] →
      ∀ commitId record, c.state.records (.commit commitId) = some record →
        id ∉ record.value.writes.map (·.id)
  /-- Reservations do not overlap. -/
  apart : ∀ id id' record record', c.state.records (.ids id) = some record →
    c.state.records (.ids id') = some record' → id ≠ id' → record.value.Apart record'.value
  /-- Ranges that were returned for different requests do not overlap. -/
  ranges : ∀ pid pid' lease lease' count count' requestId requestId' range range',
    c.procs pid = some (.reserveIds lease count requestId, .ret (.reserved range)) →
    c.procs pid' = some (.reserveIds lease' count' requestId', .ret (.reserved range')) →
    requestId ≠ requestId' → range.Apart range'
  /-- A request of a lease gets one range. -/
  same : ∀ pid pid' lease count count' requestId range range',
    c.procs pid = some (.reserveIds lease count requestId, .ret (.reserved range)) →
    c.procs pid' = some (.reserveIds lease count' requestId, .ret (.reserved range')) →
    range = range'

/-- Ids are handed out once, in every run. -/
theorem ids_handed_out_once {codec : NativeCodec} {c : NativeConfig}
    (hc : Reachable (nativeService codec) idDiscipline freshNative c) : HandsOutOnce codec c := by
  have hV := nativeService_verified codec
  have hsound := hV.reachable hc
  have hinv : NativeWorld.Consistent c.state := hsound.inv
  have hreturned : ∀ pid lease count requestId range,
      c.procs pid = some (.reserveIds lease count requestId, .ret (.reserved range)) →
        validName requestId = true ∧ Reserved (lease.reservationId requestId) range c.state :=
    fun pid lease count requestId range hproc ↦
      hsound.safe pid _ _ hproc lease count requestId range rfl rfl
  refine ⟨hinv.minted, fun ev c' id hpermits hstep hminted commitId record hread hmem ↦ ?_,
    hinv.apart, ?_, ?_⟩
  · obtain ⟨hsound', -⟩ := hV.step hsound hpermits hstep
    have hinv' : NativeWorld.Consistent c'.state := hsound'.inv
    have hid : id ∈ c'.state.ghost.minted := by simp [hminted]
    obtain ⟨write, hwrite, rfl⟩ := List.mem_map.mp hmem
    -- A commit holds the id `1` and ids that were minted before, and this one is neither.
    rcases hinv.committed commitId record hread write hwrite with hone | hbefore
    · obtain ⟨-, requestId, -, lease, range, -, hrange, hfirst, -⟩ := hinv'.owned _ hid
      have htwo := (hinv'.bounded _ range hrange).1
      omega
    · have hnodup := hinv'.minted
      rw [hminted, List.nodup_append] at hnodup
      exact hnodup.2.2 _ hbefore _ List.mem_cons_self rfl
  · rintro pid pid' lease lease' count count' requestId requestId' range range' hproc hproc' hne
    obtain ⟨hname, record, hread, rfl⟩ := hreturned pid lease count requestId range hproc
    obtain ⟨hname', record', hread', rfl⟩ := hreturned pid' lease' count' requestId' range' hproc'
    exact hinv.apart _ _ record record' hread hread' fun heq ↦
      hne (reservationId_requestId hname hname' heq)
  · rintro pid pid' lease count count' requestId range range' hproc hproc'
    obtain ⟨-, record, hread, rfl⟩ := hreturned pid lease count requestId range hproc
    obtain ⟨-, record', hread', rfl⟩ := hreturned pid' lease count' requestId range' hproc'
    cases hread.symm.trans hread'
    rfl

end

/-! ## A run

The request of the second run has the same name as that of the first one, and another lease. It gets
a range of its own. -/

/-- What is written contains ids that were handed out in this run. -/
def mintedDiscipline : Discipline NativeWorld (RecordEffect NativeKey NativeValue NativeAsk)
    NativeCall (RecordChoice NativeChoice) where
  starts _ call w :=
    match call with
    | .commit _ change => ∀ write ∈ change.writes, write.id ∈ w.ghost.minted
    | _ => True
  answers _ e x w :=
    match e with
    | .ask .randomUUID => x.answer.uuid ∉ w.ghost.issued.map Prod.snd
    | .ask .nextRequest =>
      match x.answer.request with
      | .commit writes => ∀ write ∈ writes, write.id ∈ w.ghost.minted
      | _ => True
    | _ => True

instance : mintedDiscipline.Checked where
  starts _ call _ := by
    cases call <;> unfold mintedDiscipline <;> dsimp only <;> infer_instance
  answers _ e x _ := by
    obtain ⟨⟨uuid, request⟩, fate⟩ := x
    cases e with
    | get k => exact .isTrue trivial
    | commit writes => exact .isTrue trivial
    | ask q =>
      cases q with
      | randomUUID => unfold mintedDiscipline; dsimp only; infer_instance
      | nextRequest => cases request <;> unfold mintedDiscipline <;> dsimp only <;> infer_instance
      | minted id => exact .isTrue trivial

theorem reachable_of_minted {codec : NativeCodec} {c : NativeConfig}
    (h : Reachable (nativeService codec) mintedDiscipline freshNative c) :
    Reachable (nativeService codec) idDiscipline freshNative c := by
  refine Leads.mono h (fun pid call w hstarts ↦ ?_) fun pid e x w hanswers ↦ ?_
  · cases call with
    | commit lease change => exact fun write hwrite ↦ .inr (.inl (hstarts write hwrite))
    | _ => trivial
  · cases e with
    | get k => trivial
    | commit writes => trivial
    | ask q =>
      cases q with
      | randomUUID => exact hanswers
      | nextRequest =>
        intro writes hrequest write hwrite
        simp only [mintedDiscipline, hrequest] at hanswers
        exact .inr (.inl (hanswers write hwrite))
      | minted id => trivial

def sampleCodec : NativeCodec := ⟨fun change ↦ change.commitId, fun _ ↦ 0⟩

/-- Two runs hold the lease one after the other, and each of them reserves under the name of the
same request. Then the storage of the second run hands out two ids, and commits between them. -/
def sampleReservations : List (Event NativeCall (RecordChoice NativeChoice)) :=
  [.start 0 (.claim "run 1" none), .resume 0 ⟨{}, .acknowledged⟩, .resume 0 ⟨{}, .acknowledged⟩,
    .start 1 (.reserveIds ⟨"run 1", 0⟩ 2 "request"), .resume 1 ⟨{}, .acknowledged⟩,
    .resume 1 ⟨{}, .acknowledged⟩, .resume 1 ⟨{}, .acknowledged⟩,
    .start 2 (.claim "run 2" none), .resume 2 ⟨{}, .acknowledged⟩, .resume 2 ⟨{}, .acknowledged⟩,
    .start 3 (.reserveIds ⟨"run 2", 1⟩ 2 "request"), .resume 3 ⟨{}, .acknowledged⟩,
    .resume 3 ⟨{}, .acknowledged⟩, .resume 3 ⟨{}, .acknowledged⟩,
    .start 4 (.openPiStorage ⟨"run 2", 1⟩ 3)] ++
  ([{}, { request := .mintId }, { uuid := "a" }, {}, {}, {}, {},
    { request := .commit [.value 6 "text"] }, { uuid := "b" }, {}, {}, {},
    { request := .mintId }, {}] : List NativeChoice).map
      fun x ↦ .resume 4 ⟨x, .acknowledged⟩

/-- The name of a request is that of one lease: in another one it gets another range. -/
theorem request_of_two_leases :
    ∃ c, Reachable (nativeService sampleCodec) idDiscipline freshNative c ∧
      c.procs 1 = some (.reserveIds ⟨"run 1", 0⟩ 2 "request", .ret (.reserved ⟨2, 3, 2⟩)) ∧
      c.procs 3 = some (.reserveIds ⟨"run 2", 1⟩ 2 "request", .ret (.reserved ⟨4, 5, 2⟩)) := by
  have hfirst : ((nativeService sampleCodec).run mintedDiscipline sampleReservations
      (.initial freshNative)).map (fun c ↦ c.outcome 1) =
        some (some (.reserveIds ⟨"run 1", 0⟩ 2 "request", some (.ok (.reserved ⟨2, 3, 2⟩)))) := by
    decide +kernel
  have hsecond : ((nativeService sampleCodec).run mintedDiscipline sampleReservations
      (.initial freshNative)).map (fun c ↦ c.outcome 3) =
        some (some (.reserveIds ⟨"run 2", 1⟩ 2 "request", some (.ok (.reserved ⟨4, 5, 2⟩)))) := by
    decide +kernel
  obtain ⟨c, hc, hended⟩ := Option.map_eq_some_iff.mp hfirst
  rw [hc, Option.map_some, Option.some_inj] at hsecond
  exact ⟨c, reachable_of_minted (Service.leads_of_run hc), Config.procs_of_outcome hended,
    Config.procs_of_outcome hsecond⟩

theorem sampleReservations_apart :
    ∃ c, (nativeService sampleCodec).run mintedDiscipline sampleReservations
        (.initial freshNative) = some c ∧ c.state.ghost.minted = [6, 7] ∧
      c.state.ghost.minted.Nodup := by
  have hrun : ((nativeService sampleCodec).run mintedDiscipline sampleReservations
      (.initial freshNative)).map (fun c ↦ c.state.ghost.minted) = some [6, 7] := by decide +kernel
  obtain ⟨c, hc, hminted⟩ := Option.map_eq_some_iff.mp hrun
  exact ⟨c, hc, hminted,
    (ids_handed_out_once (reachable_of_minted (Service.leads_of_run hc))).minted⟩

end RatThings
