import RatThings.Native.Lease

/-!
# What the writers of a Session's native records do

A commit of any of these methods is one of three changes (`NativeChange`): the runtime record is
annotated and keeps its native state, a range of ids is reserved, or a commit is appended. The last
two happen only while the record is that of the lease. The methods are verified here once, against
any specification to which the changes keep (`SafeNative`).

So a result about the records needs an invariant and a proof that the three changes keep it, and not
a proof about every method. What a method returns is followed as well: a reservation is in its
record, a commit was the head of the runtime record at some time, and an image that was loaded is
the chain of commits that a head of that kind leads back to.
-/

namespace RatThings

open Concurrent Service Setting

abbrev NativeRecords : Type := Store NativeKey NativeValue

/-! ## Changes -/

/-- The record of the reservation, and the runtime record that counts it. -/
structure Reserves (id : String) (count : ℕ) (current : Versioned SessionRuntimeRecord)
    (st st' : NativeRecords) : Prop where
  absent : st (.ids id) = none
  reserved : st' (.ids id) =
    some ⟨1, ⟨current.value.highWater + 1, current.value.highWater + count, count⟩⟩
  runtime : st' .runtime = some ⟨current.revision + 1, { current.value with
    native := some ⟨current.value.highWater + count, current.value.head⟩ }⟩
  others : ∀ k, k ≠ .runtime → k ≠ .ids id → st' k = st k

/-- The record of the commit, unless it is there, and the runtime record with its head. -/
structure Appends (codec : NativeCodec) (change : NativeCommit)
    (current : Versioned SessionRuntimeRecord) (st st' : NativeRecords) : Prop where
  parent : current.value.head = change.parent
  seq : change.seq = (change.parent.map (·.seq)).getD 0 + 1
  written : st (.commit change.commitId) = none ∧ st' (.commit change.commitId) = some ⟨1, change⟩ ∨
    ∃ found, st (.commit change.commitId) = some found ∧
      codec.nativeDigest found.value = codec.nativeDigest change ∧
      st' (.commit change.commitId) = some found
  runtime : st' .runtime = some ⟨current.revision + 1, { current.value with
    native := some ⟨max current.value.highWater change.idHighWater,
      some (NativeLease.headOf codec change)⟩ }⟩
  others : ∀ k, k ≠ .runtime → k ≠ .commit change.commitId → st' k = st k

/-- The native state of a runtime record that may be missing. -/
def nativeState (slot : Slot SessionRuntimeRecord) : Option NativeState :=
  slot.bind (·.value.native)

/-- The lease that a call works under. -/
def NativeCall.lease? : NativeCall → Option NativeLease
  | .claim _ _ => none
  | .close => none
  | .publish _ _ => none
  | .publishNative _ _ _ => none
  | .saveRecovery _ _ => none
  | .assertActive lease => some lease
  | .load lease => some lease
  | .reserveIds lease _ _ => some lease
  | .commit lease _ => some lease
  | .openPiStorage lease _ => some lease

/-- What one commit of a call does to the records. Commits may be known to be of some kind. -/
inductive NativeChange (codec : NativeCodec) (known : NativeCommit → Prop) (call : NativeCall)
    (st st' : NativeRecords) : Prop
  | annotate (new : Versioned SessionRuntimeRecord) (own : call.lease? = none)
      (runtime : st' .runtime = some new)
      (native : new.value.native = nativeState (st .runtime))
      (others : ∀ k, k ≠ .runtime → st' k = st k)
  | reserve (lease : NativeLease) (current : Versioned SessionRuntimeRecord) (requestId : String)
      (count : ℕ) (own : call.lease? = some lease) (positive : 1 ≤ count)
      (name : validName requestId = true) (read : st .runtime = some current)
      (holds : lease.Holds current.value)
      (reserves : Reserves (lease.reservationId requestId) count current st st')
  | append (lease : NativeLease) (current : Versioned SessionRuntimeRecord) (change : NativeCommit)
      (own : call.lease? = some lease) (kind : known change) (read : st .runtime = some current)
      (holds : lease.Holds current.value) (appends : Appends codec change current st st')

/-- A reservation that was made stays. -/
theorem NativeChange.reservation {codec : NativeCodec} {known : NativeCommit → Prop}
    {call : NativeCall} {st st' : NativeRecords} (h : NativeChange codec known call st st')
    {id : String} {record : Versioned NativeReservation} (hread : st (.ids id) = some record) :
    st' (.ids id) = some record := by
  cases h with
  | annotate new own runtime native others => exact (others _ (by simp)).trans hread
  | reserve lease current requestId count own positive name read holds reserves =>
    by_cases hid : id = lease.reservationId requestId
    · rw [hid, reserves.absent] at hread
      cases hread
    · exact (reserves.others _ (by simp) (by simpa using hid)).trans hread
  | append lease current change own kind read holds appends =>
    exact (appends.others _ (by simp) (by simp)).trans hread

/-- A commit that was appended stays. -/
theorem NativeChange.commit {codec : NativeCodec} {known : NativeCommit → Prop}
    {call : NativeCall} {st st' : NativeRecords} (h : NativeChange codec known call st st')
    {id : String} {record : Versioned NativeCommit} (hread : st (.commit id) = some record) :
    st' (.commit id) = some record := by
  cases h with
  | annotate new own runtime native others => exact (others _ (by simp)).trans hread
  | reserve lease current requestId count own positive name read holds reserves =>
    exact (reserves.others _ (by simp) (by simp)).trans hread
  | append lease current change own kind read holds appends =>
    by_cases hid : id = change.commitId
    · subst hid
      rcases appends.written with ⟨habsent, -⟩ | ⟨found, hfound, -, hafter⟩
      · rw [habsent] at hread
        cases hread
      · exact hafter.trans (hfound.symm.trans hread)
    · exact (appends.others _ (by simp) (by simpa using hid)).trans hread

/-! ## Where they come from

Each plan is compared with the change it makes. -/

section

variable {codec : NativeCodec} {st st' : NativeRecords} {current : Versioned SessionRuntimeRecord}

theorem annotate_of_commit {known : NativeCommit → Prop} {call : NativeCall}
    {slot : Slot SessionRuntimeRecord}
    {value : SessionRuntimeRecord} (hown : call.lease? = none) (hfound : st .runtime = slot)
    (hnative : value.native = nativeState slot)
    (h : st.commit [⟨NativeKey.runtime, slot.revision, some value⟩] = some st') :
    NativeChange codec known call st st' := by
  obtain ⟨-, rfl⟩ := Store.commit_singleton.mp h
  refine .annotate ⟨slot.revision + 1, value⟩ hown ?_ (hnative.trans (by rw [hfound])) fun k hk ↦ ?_
  · exact Store.apply_self st ⟨NativeKey.runtime, slot.revision, some value⟩
  · exact Store.apply_of_ne st hk

theorem reserves_of_commit {id : String} {count : ℕ} {value : NativeReservation}
    {writes : NativeWrites} (hst : st.Numbered) (hpositive : 1 ≤ count)
    (hplan : planNativeReservation current id count none = .write value writes)
    (h : st.commit writes = some st') :
    Reserves id count current st st' ∧ st' (.ids id) = some ⟨1, value⟩ := by
  rw [planNativeReservation] at hplan
  dsimp only at hplan
  split at hplan
  · cases hplan
  cases hplan
  have hlast : current.value.highWater + 1 + count - 1 = current.value.highWater + count := by omega
  rw [hlast] at h
  have hids := Store.commit_written h List.mem_cons_self (by simp [immutable, replaceRuntime])
  have hruntime := Store.commit_written h (List.mem_cons_of_mem _ List.mem_cons_self)
    (by simp [immutable, replaceRuntime])
  refine ⟨⟨Store.eq_none_of_commit hst h List.mem_cons_self rfl, hids, hruntime,
    fun k hk hk' ↦ ?_⟩, ?_⟩
  · exact Store.commit_frame h (by simp [immutable, replaceRuntime, hk, hk'])
  · rw [hlast]
    exact hids

theorem planNativeReservation_return {id : String} {count : ℕ} {slot : Slot NativeReservation}
    {value : NativeReservation}
    (hplan : planNativeReservation current id count (slot.map (·.value)) = .return value) :
    ∃ previous, slot = some previous ∧ previous.value = value ∧ value.count = count := by
  cases slot with
  | none =>
    rw [Option.map_none, planNativeReservation] at hplan
    dsimp only at hplan
    split at hplan <;> cases hplan
  | some previous =>
    rw [Option.map_some, planNativeReservation] at hplan
    split at hplan
    · next hcount =>
      cases hplan
      exact ⟨previous, rfl, rfl, hcount⟩
    · cases hplan

theorem planNativeReservation_write {id : String} {count : ℕ} {previous : Option NativeReservation}
    {value : NativeReservation} {writes : NativeWrites}
    (hplan : planNativeReservation current id count previous = .write value writes) :
    previous = none ∧ value.count = count ∧
      ∃ new, writes = [immutable (.ids id) value, replaceRuntime current new] := by
  cases previous with
  | none =>
    rw [planNativeReservation] at hplan
    dsimp only at hplan
    split at hplan
    · cases hplan
    · cases hplan
      exact ⟨rfl, rfl, _, rfl⟩
  | some previous =>
    rw [planNativeReservation] at hplan
    split at hplan <;> cases hplan

theorem planNativeCommit_write {change : NativeCommit} {head : NativeHead}
    {existing : ExistingCommit} {writes : NativeWrites} {h : NativeHead}
    (hplan : planNativeCommit codec current change head existing = .write h writes) :
    h = head ∧ (replaceRuntime current { current.value with
      native := some ⟨max current.value.highWater change.idHighWater, some head⟩ }) ∈ writes ∧
      ∀ w ∈ writes, w.value.isSome := by
  unfold planNativeCommit at hplan
  dsimp only at hplan
  split at hplan
  · cases hplan
  split at hplan
  · cases hplan
  cases existing with
  | unread => cases hplan
  | read value =>
    dsimp only at hplan
    split at hplan
    · cases hplan
    · cases hplan
      cases value <;> simp [immutable, replaceRuntime]

theorem planNativeCommit_return {change : NativeCommit} {head h : NativeHead}
    {existing : ExistingCommit}
    (hplan : planNativeCommit codec current change head existing = .return h) :
    h = head ∧ current.value.head = some head := by
  unfold planNativeCommit at hplan
  dsimp only at hplan
  split at hplan
  · next hattached =>
    cases hplan
    exact ⟨rfl, hattached⟩
  split at hplan
  · cases hplan
  cases existing with
  | unread => cases hplan
  | read value =>
    dsimp only at hplan
    split at hplan <;> cases hplan

theorem appends_of_commit {change : NativeCommit} {existing : Slot NativeCommit} {head : NativeHead}
    {writes : NativeWrites} (hst : st.Numbered)
    (hseq : change.seq = (change.parent.map (·.seq)).getD 0 + 1)
    (hexisting : ∀ found, existing = some found → st (.commit change.commitId) = some found)
    (hplan : planNativeCommit codec current change (NativeLease.headOf codec change)
      (.read (existing.map (·.value))) = .write head writes)
    (h : st.commit writes = some st') :
    Appends codec change current st st' ∧ head = NativeLease.headOf codec change := by
  rw [planNativeCommit] at hplan
  dsimp only at hplan
  split at hplan
  · cases hplan
  split at hplan
  · cases hplan
  next hparent =>
  split at hplan
  · cases hplan
  next hdigest =>
  have hparent : current.value.head = change.parent := not_not.mp hparent
  cases existing with
  | none =>
    cases hplan
    have hcommit := Store.commit_written h List.mem_cons_self (by simp [immutable, replaceRuntime])
    have hruntime := Store.commit_written h (List.mem_cons_of_mem _ List.mem_cons_self)
      (by simp [immutable, replaceRuntime])
    have habsent : st (.commit change.commitId) = none :=
      Store.eq_none_of_commit hst h List.mem_cons_self rfl
    refine ⟨⟨hparent, hseq, .inl ⟨habsent, hcommit⟩, hruntime, fun k hk hk' ↦ ?_⟩, rfl⟩
    exact Store.commit_frame h (by simp [immutable, replaceRuntime, hk, hk'])
  | some found =>
    cases hplan
    have hruntime := Store.commit_written h List.mem_cons_self (by simp)
    have hframe : ∀ k, k ≠ .runtime → st' k = st k := fun k hk ↦
      Store.commit_frame h (by simpa [replaceRuntime] using hk)
    have hfound : st (.commit change.commitId) = some found := hexisting found rfl
    refine ⟨⟨hparent, hseq, .inr ⟨found, hfound, ?_, (hframe _ (by simp)).trans hfound⟩, hruntime,
      fun k hk _ ↦ hframe k hk⟩, rfl⟩
    by_contra hne
    exact hdigest ⟨found.value, rfl, hne⟩

end

/-! ## The methods

The loops of the methods try again after a conflict. Each round starts from what it reads, so no
invariant beyond that of the specification is needed. -/

section

variable {Ghost χ : Type} {spec : RecordSpec NativeKey NativeValue Ghost NativeCall}
  {surroundings : Surroundings NativeKey NativeValue NativeAsk NativeAsk.Answer Ghost χ}
  {codec : NativeCodec} {body : NativeCall → NativeProg NativeResult}
  {D : Discipline (RecordWorld NativeKey NativeValue Ghost)
    (RecordEffect NativeKey NativeValue NativeAsk) NativeCall (RecordChoice χ)}
  {ok : NativeCommit → RecordWorld NativeKey NativeValue Ghost → Prop}

/-- A specification to which the changes keep. An append may rest on something that is known of the
commit. -/
structure SafeNative (codec : NativeCodec)
    (spec : RecordSpec NativeKey NativeValue Ghost NativeCall)
    (surroundings : Surroundings NativeKey NativeValue NativeAsk NativeAsk.Answer Ghost χ)
    (ok : NativeCommit → RecordWorld NativeKey NativeValue Ghost → Prop) : Prop where
  numbered : ∀ w, spec.inv w → w.records.Numbered
  records : ∀ w w', spec.since w w' → ∀ k, (w.records k).Precedes (w'.records k)
  reservations : ∀ w w', spec.since w w' → ∀ id record,
    w.records (.ids id) = some record → w'.records (.ids id) = some record
  commits : ∀ w w', spec.since w w' → ∀ id record,
    w.records (.commit id) = some record → w'.records (.commit id) = some record
  known : ∀ change w w', spec.since w w' → ok change w → ok change w'
  steps : ∀ (p : ℕ × NativeCall) w st, spec.inv w →
    NativeChange codec (ok · w) p.2 w.records st → (∀ k, (w.records k).Precedes (st k)) →
      st.Numbered → spec.Steps p w ⟨st, surroundings.observe p.1 w.records st w.ghost⟩

variable (h : SafeNative codec spec surroundings ok) {p : ℕ × NativeCall} {β : Type}
  {P : RecordWorld NativeKey NativeValue Ghost → Prop}
  {Q : β → RecordWorld NativeKey NativeValue Ghost → Prop}

include h

/-- A change of the runtime record that was read. -/
theorem SafeNative.meets_annotate (hown : p.2.lease? = none)
    {w₀ : RecordWorld NativeKey NativeValue Ghost} {value : SessionRuntimeRecord}
    (hnative : value.native = nativeState (w₀.records .runtime)) :
    (spec.setting surroundings body D).Meets p (spec.since w₀)
      (commitWrites [⟨NativeKey.runtime, (w₀.records .runtime).revision, some value⟩] :
        NativeProg Unit) (fun _ _ ↦ True) fun _ _ ↦ True := by
  refine (meets_commitWrites (R := fun _ ↦ True) (RecordSpec.since_permanent w₀)
    fun w st hinv hsince hst ↦ ⟨?_, trivial⟩).conseq (fun _ _ hp ↦ hp) (fun _ _ _ _ ↦ trivial)
      fun _ _ _ _ ↦ trivial
  have hfound : w.records .runtime = w₀.records .runtime :=
    Store.commit_of_seen hst List.mem_cons_self rfl (h.records w₀ w hsince _)
  exact h.steps p w st hinv (annotate_of_commit hown hfound hnative hst)
    (Store.precedes_of_commit hst (by simp)) (Store.numbered_of_commit (h.numbered w hinv) hst)

theorem SafeNative.meets_putRuntime (hown : p.2.lease? = none)
    {w₀ : RecordWorld NativeKey NativeValue Ghost} {current : Versioned SessionRuntimeRecord}
    {value : SessionRuntimeRecord} (hread : w₀.records .runtime = some current)
    (hnative : value.native = current.value.native) :
    (spec.setting surroundings body D).Meets p (spec.since w₀)
      (SessionRuntimeStore.putRuntime current value) (fun _ _ ↦ True) fun _ _ ↦ True := by
  have hput : (spec.setting surroundings body D).Meets p (spec.since w₀)
      (commitWrites [⟨NativeKey.runtime, (w₀.records .runtime).revision, some value⟩] :
        NativeProg Unit) (fun _ _ ↦ True) fun _ _ ↦ True :=
    h.meets_annotate hown (by rw [hread]; exact hnative)
  rwa [hread] at hput

theorem SafeNative.yields_claim (hown : p.2.lease? = none) (runId : String)
    (attempt : Option RuntimeAttempt) :
    (spec.setting surroundings body D).Yields p (SessionRuntimeStore.claim runId attempt)
      fun _ ↦ True := by
  refine RecordSpec.meets_get stable_true fun w₀ _ _ ↦ ?_
  split
  · exact meets_raise fun _ _ _ ↦ trivial
  · refine h.meets_annotate hown ?_
    cases w₀.records .runtime <;> rfl

theorem SafeNative.yields_publish (hown : p.2.lease? = none) (runId snapshot : String) :
    (spec.setting surroundings body D).Yields p (SessionRuntimeStore.publish runId snapshot)
      fun _ ↦ True := by
  refine RecordSpec.meets_get stable_true fun w₀ _ _ ↦ ?_
  cases hread : w₀.records .runtime with
  | none => exact meets_ret fun _ _ _ ↦ trivial
  | some current =>
    dsimp only
    split
    · exact meets_ret fun _ _ _ ↦ trivial
    · exact Meets.bind (h.meets_putRuntime hown hread rfl) fun _ ↦ meets_ret fun _ _ _ ↦ trivial

theorem SafeNative.yields_publishAttempts (hown : p.2.lease? = none) (runId : String) (seq : ℕ)
    (snapshot : String) (attempts : ℕ) :
    (spec.setting surroundings body D).Yields p
      (SessionRuntimeStore.publishAttempts commitWrites runId seq snapshot attempts)
      fun _ ↦ True := by
  induction attempts with
  | zero => exact yields_ret trivial
  | succ attempts ih =>
    refine RecordSpec.meets_get stable_true fun w₀ _ _ ↦ ?_
    cases hread : w₀.records .runtime with
    | none => exact meets_ret fun _ _ _ ↦ trivial
    | some current =>
      dsimp only
      split
      · exact meets_ret fun _ _ _ ↦ trivial
      · refine Meets.catching (U := fun _ _ ↦ True) ?_ fun error ↦ ?_
        · exact Meets.bind (h.meets_putRuntime hown hread rfl)
            fun _ ↦ meets_ret fun _ _ _ ↦ trivial
        · split
          · exact meets_raise fun _ _ _ ↦ trivial
          · exact ih

theorem SafeNative.yields_closeAttempts (hown : p.2.lease? = none) (attempts : ℕ) :
    (spec.setting surroundings body D).Yields p (SessionRuntimeStore.closeAttempts attempts)
      fun _ ↦ True := by
  induction attempts with
  | zero => exact yields_raise
  | succ attempts ih =>
    refine RecordSpec.meets_get stable_true fun w₀ _ _ ↦ ?_
    split
    · exact meets_ret fun _ _ _ ↦ trivial
    · refine Meets.catching (U := fun _ _ ↦ True) (h.meets_annotate hown ?_) fun error ↦ ?_
      · cases w₀.records .runtime <;> rfl
      · split
        · split
          · exact meets_raise fun _ _ _ ↦ trivial
          · exact ih
        · exact meets_raise fun _ _ _ ↦ trivial

theorem SafeNative.yields_saveRecovery (hown : p.2.lease? = none) (attempt : Option RuntimeAttempt)
    (recoveryExhausted : Bool) :
    (spec.setting surroundings body D).Yields p
      (SessionRuntimeStore.saveRecovery attempt recoveryExhausted) fun _ ↦ True := by
  refine RecordSpec.meets_get stable_true fun w₀ _ _ ↦ ?_
  cases hread : w₀.records .runtime with
  | none => exact meets_ret fun _ _ _ ↦ trivial
  | some current =>
    dsimp only
    split
    · exact meets_ret fun _ _ _ ↦ trivial
    · exact h.meets_putRuntime hown hread rfl

omit h in
/-- The record of the lease, as it was read. -/
theorem meets_active {lease : NativeLease} {f : Versioned SessionRuntimeRecord → NativeProg β}
    (hP : (spec.setting surroundings body D).Stable p P)
    (hf : ∀ w₀ current, spec.inv w₀ → P w₀ → w₀.records .runtime = some current →
      lease.Holds current.value →
        (spec.setting surroundings body D).Meets p (spec.since w₀) (f current) Q fun _ _ ↦ True) :
    (spec.setting surroundings body D).Meets p P (lease.active >>= f) Q fun _ _ ↦ True := by
  refine Meets.bind (M := fun current w ↦ ∃ w₀, spec.inv w₀ ∧ P w₀ ∧
    w₀.records .runtime = some current ∧ lease.Holds current.value ∧ spec.since w₀ w) ?_ ?_
  · refine RecordSpec.meets_get hP fun w₀ hinv hp ↦ ?_
    cases hread : w₀.records .runtime with
    | none => exact meets_raise fun _ _ _ ↦ trivial
    | some current =>
      dsimp only
      split
      · next hholds => exact meets_ret fun w _ hsince ↦ ⟨w₀, hinv, hp, hread, hholds, hsince⟩
      · exact meets_raise fun _ _ _ ↦ trivial
  · rintro current w hinv ⟨w₀, hinv₀, hp, hread, hholds, hsince⟩
    exact hf w₀ current hinv₀ hp hread hholds w hinv hsince

/-! ## Reservations -/

/-- The reservation is in its record. -/
def Reserved (id : String) (range : NativeReservation)
    (w : RecordWorld NativeKey NativeValue Ghost) : Prop :=
  ∃ record, w.records (.ids id) = some record ∧ record.value = range

theorem SafeNative.permanent_reserved (id : String) (range : NativeReservation) :
    (spec.setting surroundings body D).Permanent (Reserved id range) := by
  rintro q e w w' - - ⟨hsince, -⟩ ⟨record, hread, hvalue⟩
  exact ⟨record, h.reservations w w' hsince id record hread, hvalue⟩

/-- The reservation that was planned is made. -/
theorem SafeNative.meets_reservation {lease : NativeLease} {requestId : String} {count : ℕ}
    (hown : p.2.lease? = some lease) (hpositive : 1 ≤ count) (hname : validName requestId = true)
    {w₀ : RecordWorld NativeKey NativeValue Ghost} {current : Versioned SessionRuntimeRecord}
    (hread : w₀.records .runtime = some current) (hholds : lease.Holds current.value)
    {value : NativeReservation} {writes : NativeWrites}
    (hplan : planNativeReservation current (lease.reservationId requestId) count none =
      .write value writes) :
    (spec.setting surroundings body D).Meets p (spec.since w₀)
      (commitWrites writes : NativeProg Unit)
      (fun _ ↦ Reserved (lease.reservationId requestId) value) fun _ _ ↦ True := by
  refine (meets_commitWrites (R := Reserved (lease.reservationId requestId) value)
    (RecordSpec.since_permanent w₀) fun w st hinv hsince hst ↦ ?_).conseq (fun _ _ hp ↦ hp)
      (fun _ _ _ hq ↦ hq.2) fun _ _ _ _ ↦ trivial
  obtain ⟨hreserves, hvalue⟩ := reserves_of_commit (h.numbered w hinv) hpositive hplan hst
  obtain ⟨-, -, new, rfl⟩ := planNativeReservation_write hplan
  have hfound : w.records .runtime = some current :=
    Store.commit_of_seen hst (List.mem_cons_of_mem _ List.mem_cons_self) rfl
      (hread ▸ h.records w₀ w hsince .runtime)
  refine ⟨h.steps p w st hinv ?_
    (Store.precedes_of_commit hst (by simp [immutable, replaceRuntime]))
    (Store.numbered_of_commit (h.numbered w hinv) hst), ⟨1, value⟩, hvalue, rfl⟩
  exact .reserve lease current requestId count hown hpositive hname hfound hholds hreserves

theorem SafeNative.meets_reserveAttempts {lease : NativeLease} {requestId : String} {count : ℕ}
    (hown : p.2.lease? = some lease) (hpositive : 1 ≤ count) (hname : validName requestId = true)
    (attempts : ℕ) :
    (spec.setting surroundings body D).Meets p (fun _ ↦ True)
      (lease.reserveAttempts (lease.reservationId requestId) count attempts)
      (fun range w ↦ range.count = count ∧ Reserved (lease.reservationId requestId) range w)
      fun _ _ ↦ True := by
  induction attempts with
  | zero => exact meets_raise fun _ _ _ ↦ trivial
  | succ attempts ih =>
    refine meets_active stable_true fun w₀ current _ _ hread hholds ↦ ?_
    refine RecordSpec.meets_get (RecordSpec.since_permanent w₀).stable fun w₁ _ hsince₁ ↦ ?_
    cases hplan : planNativeReservation current (lease.reservationId requestId) count
        ((w₁.records (.ids (lease.reservationId requestId))).map (·.value)) with
    | reject error => exact meets_raise fun _ _ _ ↦ trivial
    | «return» value =>
      obtain ⟨previous, hprevious, rfl, hcount⟩ := planNativeReservation_return hplan
      refine meets_ret fun w _ hsince ↦ ⟨hcount, previous, ?_, rfl⟩
      exact h.reservations w₁ w hsince _ previous hprevious
    | write value writes =>
      obtain ⟨hnone, hcount, -⟩ := planNativeReservation_write hplan
      rw [hnone] at hplan
      refine Meets.catching (U := fun _ _ ↦ True) ?_ fun error ↦ ?_
      · refine Meets.bind ((h.meets_reservation hown hpositive hname hread hholds hplan).pre
          fun w _ hw ↦ spec.since_trans hsince₁ hw) fun _ ↦ meets_ret fun w _ hw ↦ ⟨hcount, hw⟩
      · split
        · exact meets_raise fun _ _ _ ↦ trivial
        · exact ih

theorem SafeNative.meets_reserveIds {lease : NativeLease} {requestId : String} {count : ℕ}
    (hown : p.2.lease? = some lease) :
    (spec.setting surroundings body D).Meets p (fun _ ↦ True) (lease.reserveIds count requestId)
      (fun range w ↦ validName requestId = true ∧ range.count = count ∧
        Reserved (lease.reservationId requestId) range w) fun _ _ ↦ True := by
  rw [NativeLease.reserveIds]
  split
  · exact meets_raise fun _ _ _ ↦ trivial
  · next hvalid =>
    simp only [not_or, not_lt, Bool.not_eq_false] at hvalid
    exact (h.meets_reserveAttempts hown hvalid.2.1 hvalid.2.2.2 4).conseq (fun _ _ hp ↦ hp)
      (fun _ _ _ hq ↦ ⟨hvalid.2.2.2, hq⟩) fun _ _ _ _ ↦ trivial

/-! ## Commits -/

/-- The head was attached to the runtime record at some time. -/
def Attached (spec : RecordSpec NativeKey NativeValue Ghost NativeCall) (head : NativeHead)
    (w : RecordWorld NativeKey NativeValue Ghost) : Prop :=
  ∃ w₀ current, spec.inv w₀ ∧ spec.since w₀ w ∧ w₀.records .runtime = some current ∧
    current.value.head = some head

/-- The commit that was planned is made. -/
theorem SafeNative.meets_append {lease : NativeLease} {change : NativeCommit}
    (hown : p.2.lease? = some lease)
    (hseq : change.seq = (change.parent.map (·.seq)).getD 0 + 1)
    {w₀ w₁ : RecordWorld NativeKey NativeValue Ghost} {current : Versioned SessionRuntimeRecord}
    (hknown : ok change w₀) (hread : w₀.records .runtime = some current)
    (hholds : lease.Holds current.value) (hsince₁ : spec.since w₀ w₁) {head : NativeHead}
    {writes : NativeWrites}
    (hplan : planNativeCommit codec current change (NativeLease.headOf codec change)
      (.read ((w₁.records (.commit change.commitId)).map (·.value))) = .write head writes) :
    (spec.setting surroundings body D).Meets p (spec.since w₁)
      (commitWrites writes : NativeProg Unit) (fun _ ↦ Attached spec head) fun _ _ ↦ True := by
  refine (meets_commitWrites (R := Attached spec head) (RecordSpec.since_permanent w₁)
    fun w st hinv hsince hst ↦ ?_).conseq (fun _ _ hp ↦ hp) (fun _ _ _ hq ↦ hq.2)
      fun _ _ _ _ ↦ trivial
  obtain ⟨happends, hhead⟩ := appends_of_commit (h.numbered w hinv) hseq
    (fun found hfound ↦ h.commits w₁ w hsince _ found hfound) hplan hst
  have hwrites := planNativeCommit_write hplan
  have hfound : w.records .runtime = some current :=
    Store.commit_of_seen hst hwrites.2.1 rfl
      (hread ▸ h.records w₀ w (spec.since_trans hsince₁ hsince) .runtime)
  have hstep := h.steps p w st hinv (.append lease current change hown
      (h.known change w₀ w (spec.since_trans hsince₁ hsince) hknown) hfound hholds happends)
    (Store.precedes_of_commit hst hwrites.2.2) (Store.numbered_of_commit (h.numbered w hinv) hst)
  refine ⟨hstep, ⟨st, _⟩, _, hstep.1, spec.since_refl _, happends.runtime, ?_⟩
  rw [hhead]
  rfl

/-- Either the head is attached already, or the commit is made, or it is tried again. -/
theorem SafeNative.meets_settleCommit {lease : NativeLease} {change : NativeCommit}
    (hown : p.2.lease? = some lease)
    (hseq : change.seq = (change.parent.map (·.seq)).getD 0 + 1)
    {w₀ w₁ : RecordWorld NativeKey NativeValue Ghost} {current : Versioned SessionRuntimeRecord}
    (hinv : spec.inv w₀) (hknown : ok change w₀) (hread : w₀.records .runtime = some current)
    (hholds : lease.Holds current.value) (hsince₁ : spec.since w₀ w₁) {existing : ExistingCommit}
    (hexisting : existing = .unread ∨
      existing = .read ((w₁.records (.commit change.commitId)).map (·.value)))
    {retry : NativeProg NativeHead} {attempts : ℕ}
    (hretry : (spec.setting surroundings body D).Meets p (ok change) retry
      (fun head w ↦ head = NativeLease.headOf codec change ∧ Attached spec head w) fun _ _ ↦ True) :
    (spec.setting surroundings body D).Meets p (spec.since w₁)
      (NativeLease.settleCommit retry attempts
        (planNativeCommit codec current change (NativeLease.headOf codec change) existing))
      (fun head w ↦ head = NativeLease.headOf codec change ∧ Attached spec head w)
      fun _ _ ↦ True := by
  cases hplan : planNativeCommit codec current change (NativeLease.headOf codec change)
    existing with
  | reject error => exact meets_raise fun _ _ _ ↦ trivial
  | readExisting => exact meets_raise fun _ _ _ ↦ trivial
  | «return» head =>
    obtain ⟨rfl, hattached⟩ := planNativeCommit_return hplan
    exact meets_ret fun w _ hsince ↦
      ⟨rfl, w₀, current, hinv, spec.since_trans hsince₁ hsince, hread, hattached⟩
  | write head writes =>
    obtain ⟨hhead, -, -⟩ := planNativeCommit_write hplan
    obtain rfl | rfl := hexisting
    · unfold planNativeCommit at hplan
      dsimp only at hplan
      split at hplan
      · cases hplan
      · split at hplan <;> cases hplan
    refine Meets.catching (U := fun _ ↦ spec.since w₁) ?_ fun error ↦ ?_
    · refine Meets.bind (((h.meets_append hown hseq hknown hread hholds hsince₁ hplan).frame
        (RecordSpec.since_permanent w₁)).conseq
        (fun _ _ hp ↦ ⟨hp, hp⟩) (fun _ _ _ hq ↦ hq.2) fun _ _ _ ht ↦ ht.1)
        fun _ ↦ meets_ret fun w _ hw ↦ ⟨hhead, hw⟩
    · split
      · exact meets_raise fun _ _ _ ↦ trivial
      · exact hretry.pre fun w _ hsince ↦
          h.known change w₀ w (spec.since_trans hsince₁ hsince) hknown

theorem SafeNative.meets_commitAttempts {lease : NativeLease} {change : NativeCommit}
    (hown : p.2.lease? = some lease)
    (hseq : change.seq = (change.parent.map (·.seq)).getD 0 + 1) (attempts : ℕ) :
    (spec.setting surroundings body D).Meets p (ok change)
      (lease.commitAttempts codec change attempts)
      (fun head w ↦ head = NativeLease.headOf codec change ∧ Attached spec head w)
      fun _ _ ↦ True := by
  induction attempts with
  | zero => exact meets_raise fun _ _ _ ↦ trivial
  | succ attempts ih =>
    refine meets_active (fun _ _ w w' _ _ _ hguar ↦ h.known change w w' hguar.1)
      fun w₀ current hinv hknown hread hholds ↦ ?_
    have hfirst := @SafeNative.meets_settleCommit _ _ _ _ _ body D _ h p _ _ hown hseq w₀ w₀ current
      hinv hknown hread hholds (spec.since_refl w₀) .unread (.inl rfl) _ attempts ih
    split
    · refine RecordSpec.meets_get (RecordSpec.since_permanent w₀).stable fun w₁ _ hsince₁ ↦ ?_
      exact h.meets_settleCommit hown hseq hinv hknown hread hholds hsince₁ (.inr rfl) ih
    · exact hfirst

theorem SafeNative.meets_commit {lease : NativeLease} {change : NativeCommit}
    (hown : p.2.lease? = some lease) :
    (spec.setting surroundings body D).Meets p (ok change) (lease.commit codec change)
      (fun head w ↦ head = NativeLease.headOf codec change ∧ Attached spec head w)
      fun _ _ ↦ True := by
  rw [NativeLease.commit]
  split
  · exact meets_raise fun _ _ _ ↦ trivial
  split
  · exact meets_raise fun _ _ _ ↦ trivial
  · next hvalid _ =>
    simp only [not_or, ne_eq, not_not] at hvalid
    exact h.meets_commitAttempts hown hvalid.2.2.2.1 4

/-! ## Loading

Commits are immutable, so a chain that was read step by step is the chain there is. -/

/-- The commits that are reached from a head through parents, the first one first. -/
inductive Linked (codec : NativeCodec) (st : NativeRecords) : Option NativeHead →
    List NativeCommit → Prop
  | nil : Linked codec st none []
  | snoc {head : NativeHead} {found : Versioned NativeCommit} {commits : List NativeCommit} :
      st (.commit head.commitId) = some found → found.value.seq = head.seq →
        codec.nativeDigest found.value = head.digest → Linked codec st found.value.parent commits →
          Linked codec st (some head) (commits ++ [found.value])

theorem SafeNative.meets_walk (fuel : ℕ) (cursor : Option NativeHead)
    (commits : List NativeCommit) :
    (spec.setting surroundings body D).Meets p (fun _ ↦ True)
      (NativeLease.walk codec fuel cursor commits)
      (fun all w ↦ ∃ earlier, all = earlier ++ commits ∧ Linked codec w.records cursor earlier)
      fun _ _ ↦ True := by
  induction fuel generalizing cursor commits with
  | zero =>
    cases cursor with
    | none => exact meets_ret fun _ _ _ ↦ ⟨[], rfl, .nil⟩
    | some head => exact meets_raise fun _ _ _ ↦ trivial
  | succ fuel ih =>
    cases cursor with
    | none => exact meets_ret fun _ _ _ ↦ ⟨[], rfl, .nil⟩
    | some head =>
      refine RecordSpec.meets_get stable_true fun w₀ _ _ ↦ ?_
      cases hread : w₀.records (.commit head.commitId) with
      | none => exact meets_raise fun _ _ _ ↦ trivial
      | some found =>
        dsimp only
        split
        · exact meets_raise fun _ _ _ ↦ trivial
        split
        · exact meets_raise fun _ _ _ ↦ trivial
        next hfound _ =>
        simp only [ne_eq, not_or, not_not] at hfound
        refine ((ih found.value.parent (found.value :: commits)).frame
          (RecordSpec.since_permanent w₀)).conseq (fun _ _ hp ↦
            ⟨hp, trivial⟩) ?_ fun _ _ _ _ ↦ trivial
        rintro all w - ⟨hsince, earlier, rfl, hlinked⟩
        refine ⟨earlier ++ [found.value], by simp, ?_⟩
        exact .snoc (h.commits w₀ w hsince _ found hread) hfound.1 hfound.2 hlinked

/-- The image is that of the runtime record at some time under the lease. -/
def Loaded (codec : NativeCodec) (spec : RecordSpec NativeKey NativeValue Ghost NativeCall)
    (lease : NativeLease) (image : NativeImage)
    (w : RecordWorld NativeKey NativeValue Ghost) : Prop :=
  ∃ w₀ current, spec.inv w₀ ∧ spec.since w₀ w ∧ w₀.records .runtime = some current ∧
    lease.Holds current.value ∧ image.head = current.value.head ∧
    image.highWater = current.value.highWater ∧ Linked codec w.records image.head image.commits

theorem SafeNative.meets_load (lease : NativeLease) :
    (spec.setting surroundings body D).Meets p (fun _ ↦ True) (lease.load codec)
      (fun image ↦ Loaded codec spec lease image) fun _ _ ↦ True := by
  refine meets_active stable_true fun w₀ current hinv _ hread hholds ↦ ?_
  refine Meets.bind (((h.meets_walk _ current.value.head []).frame
    (RecordSpec.since_permanent w₀)).conseq (fun _ _ hp ↦ ⟨hp, trivial⟩) (fun _ _ _ hq ↦ hq)
      fun _ _ _ _ ↦ trivial) fun commits ↦ meets_ret ?_
  rintro w - ⟨hsince, earlier, rfl, hlinked⟩
  rw [List.append_nil]
  exact ⟨w₀, current, hinv, hsince, hread, hholds, rfl, rfl, hlinked⟩

end

end RatThings
