import Mathlib.Data.List.Infix
import RatThings.Native.Changes

/-!
# Publications of a projection

An engine publishes, behind its commits, what its Session looks like at a native head. The snapshot
is written to the runtime record, which the engine's own reservations and commits write as well. A
publication that finds the record changed reads it again, and gives up when the head has moved on.

## Two stores

Whether a publication tries again depends on the class of the error. The DynamoDB store reports a
write it rejected as a resource conflict. The SQLite store reports an ordinary API error, and a
publication does not try again after one. So over the first store a publication throws only after
losing ten writes in a row, and over the second one after losing a single one
(`AgentsStoreKind.losses`).

## What holds of both

A publication stores its snapshot for the head of that moment, or nothing, and the other calls of
the lease leave the projection alone. One that returns successfully is in the log of the writes to
the runtime record. `PublicationsFollow` says so of every run of the calls of one lease.
-/

namespace RatThings

open Concurrent Service Setting

/-! ## How a rejected write is reported -/

inductive AgentsStoreKind : Type
  | dynamo
  | sqlite
deriving DecidableEq, Repr

/-- The error for a write that named another revision than the current one. -/
def AgentsStoreKind.rejection : AgentsStoreKind → AgentsApiError
  | .dynamo => conflictError
  | .sqlite => ⟨409, "Resource changed concurrently.", some "conflict", none⟩

variable (store : AgentsStoreKind)

def commitTo (writes : NativeWrites) : NativeProg Unit := do
  match ← Prog.perform (RecordEffect.commit writes) with
  | .done => pure ()
  | .conflict => throw (.api store.rejection)
  | .unknown => throw (.error "connection lost")

/-- A method that only passes the error of a rejected write on. -/
def reported {α : Type} (m : NativeProg α) : NativeProg α :=
  m.catching fun error ↦
    throw (if error = .api conflictError then .api store.rejection else error)

/-- The methods over a store. -/
def publicationBody (codec : NativeCodec) : NativeCall → NativeProg NativeResult
  | .publishNative runId seq snapshot => do
    let published ← SessionRuntimeStore.publishNative (commitTo store) runId seq snapshot
    pure (.published published)
  | call => reported store (nativeBody codec call)

theorem commitTo_dynamo : commitTo .dynamo = commitWrites := by
  funext writes
  refine congrArg (Prog.call _) (funext fun reply ↦ ?_)
  cases reply <;> rfl

/-- DynamoDB reports a rejected write as the store does that the methods were written for. -/
theorem reported_dynamo {α : Type} (m : NativeProg α) : reported .dynamo m = m := by
  have hsame : ∀ error : ServiceFailure,
      (if error = .api conflictError then .api AgentsStoreKind.dynamo.rejection else error) =
        error := by
    intro error
    split
    · next h => exact h.symm
    · rfl
  induction m with
  | ret a => rfl
  | raise error => exact congrArg Prog.raise (hsame error)
  | call e k ih => exact congrArg (Prog.call e) (funext ih)

/-- Over DynamoDB these are the methods of the lease. -/
theorem publicationBody_dynamo (codec : NativeCodec) :
    publicationBody .dynamo codec = nativeBody codec := by
  funext call
  cases call with
  | publishNative runId seq snapshot =>
    rw [publicationBody, commitTo_dynamo]
    rfl
  | _ => exact reported_dynamo _

/-! ## The service -/

/-- What a write that took effect did to the runtime record. -/
structure RuntimeWrite where
  pid : ℕ
  before : Slot SessionRuntimeRecord
  after : Slot SessionRuntimeRecord
deriving DecidableEq, Repr

def publicationSurroundings : Surroundings NativeKey NativeValue NativeAsk NativeAsk.Answer
    (List RuntimeWrite) Unit where
  answer _ _ _ _ := none
  observe pid st st' log := log ++ [⟨pid, st .runtime, st' .runtime⟩]

abbrev PublicationWorld : Type := RecordWorld NativeKey NativeValue (List RuntimeWrite)

def publicationService (codec : NativeCodec) :=
  publicationSurroundings.service (publicationBody store codec)

/-- The calls of one lease: publications, reservations and commits. -/
def NativeCall.OfLease (lease : NativeLease) : NativeCall → Prop
  | .publishNative runId _ _ => runId = lease.runId
  | .reserveIds lease' _ _ => lease' = lease
  | .commit lease' _ => lease' = lease
  | _ => False

/-- Every write is acknowledged, or else rejected because the record had changed. -/
def publicationDiscipline (lease : NativeLease) : Discipline PublicationWorld
    (RecordEffect NativeKey NativeValue NativeAsk) NativeCall (RecordChoice Unit) where
  starts _ call _ := call.OfLease lease
  answers _ _ x _ := x.fate = .acknowledged

abbrev PublicationConfig : Type :=
  Config PublicationWorld (RecordEffect NativeKey NativeValue NativeAsk)
    (RecordEffect.Answer NativeAsk.Answer) ServiceFailure NativeResult NativeCall

/-! ## What is published

What a write may do to the projection, and what it leaves alone. -/

/-- The snapshot was stored for the head that the record had. Nothing else changed. -/
def Stores (runId : String) (seq : ℕ) (snapshot : String)
    (before after : Slot SessionRuntimeRecord) :
    Prop :=
  ∃ current, before = some current ∧ ¬SessionRuntimeStore.Outdated runId seq current.value ∧
    after = some ⟨current.revision + 1, SessionRuntimeStore.project seq snapshot current.value⟩

/-- `projectionSeq ?? -1`. -/
def projectionSeq (slot : Slot SessionRuntimeRecord) : ℤ :=
  ((slot.bind (·.value.projectionSeq)).map Int.ofNat).getD (-1)

/-- What publications are about. -/
def projection (slot : Slot SessionRuntimeRecord) : Option (Option String × Option ℕ) :=
  slot.map fun current ↦ (current.value.snapshot, current.value.projectionSeq)

theorem projectionSeq_congr {slot slot' : Slot SessionRuntimeRecord}
    (h : projection slot' = projection slot) : projectionSeq slot' = projectionSeq slot := by
  have hvia : ∀ s : Slot SessionRuntimeRecord, projectionSeq s =
      (((projection s).bind (·.2)).map Int.ofNat).getD (-1) := by
    intro s
    cases s <;> rfl
  rw [hvia, hvia, h]

theorem Stores.increases {runId : String} {seq : ℕ} {snapshot : String}
    {before after : Slot SessionRuntimeRecord} (h : Stores runId seq snapshot before after) :
    projectionSeq before < projectionSeq after := by
  obtain ⟨current, rfl, hdue, rfl⟩ := h
  have hafter : projectionSeq (some ⟨current.revision + 1,
      SessionRuntimeStore.project seq snapshot current.value⟩) = seq := rfl
  rw [hafter]
  simp only [SessionRuntimeStore.Outdated, not_or] at hdue
  cases hpublished : current.value.projectionSeq with
  | none =>
    have hbefore : projectionSeq (some current) = -1 := by simp [projectionSeq, hpublished]
    omega
  | some published =>
    have hbefore : projectionSeq (some current) = published := by
      simp [projectionSeq, hpublished]
    have hless : published < seq := by
      by_contra hle
      exact hdue.2.2.2 ⟨published, hpublished, Nat.le_of_not_lt hle⟩
    omega

/-! ## The specification -/

/-- What one step of a call does to the runtime record. -/
def NativeCall.Publishes (call : NativeCall) (before after : Slot SessionRuntimeRecord) : Prop :=
  match call with
  | .publishNative runId seq snapshot => after = before ∨ Stores runId seq snapshot before after
  | _ => projection after = projection before

/-- Records are replaced, and those that nobody may change stay. -/
structure RecordsSince (w w' : PublicationWorld) : Prop where
  records : ∀ k, (w.records k).Precedes (w'.records k)
  reservations : ∀ id record, w.records (.ids id) = some record → w'.records (.ids id) = some record
  commits : ∀ id record, w.records (.commit id) = some record →
    w'.records (.commit id) = some record
  log : w.ghost <+: w'.ghost

theorem RecordsSince.refl (w : PublicationWorld) : RecordsSince w w :=
  ⟨fun _ ↦ .refl _, fun _ _ h ↦ h, fun _ _ h ↦ h, List.prefix_refl _⟩

theorem RecordsSince.trans {w₁ w₂ w₃ : PublicationWorld} (h : RecordsSince w₁ w₂)
    (h' : RecordsSince w₂ w₃) : RecordsSince w₁ w₃ where
  records k := (h.records k).trans (h'.records k)
  reservations id record hread := h'.reservations id record (h.reservations id record hread)
  commits id record hread := h'.commits id record (h.commits id record hread)
  log := h.log.trans h'.log

/-- The publications of the other calls are left open. -/
def leaseSpec : RecordSpec NativeKey NativeValue (List RuntimeWrite) NativeCall where
  inv w := w.records.Numbered
  since := RecordsSince
  allowed p w w' :=
    p.2.lease?.isSome = true → projection (w'.records .runtime) = projection (w.records .runtime)
  since_refl := .refl
  since_trans := .trans
  allowed_refl _ _ _ := rfl

def publicationSpec : RecordSpec NativeKey NativeValue (List RuntimeWrite) NativeCall where
  inv w := w.records.Numbered
  since w w' := RecordsSince w w' ∧
    projectionSeq (w.records .runtime) ≤ projectionSeq (w'.records .runtime)
  allowed p w w' := p.2.Publishes (w.records .runtime) (w'.records .runtime)
  since_refl w := ⟨.refl w, Int.le_refl _⟩
  since_trans h h' := ⟨h.1.trans h'.1, Int.le_trans h.2 h'.2⟩
  allowed_refl p w := by
    cases p with
    | mk pid call => cases call <;> first | exact .inl rfl | exact rfl

section

variable (codec : NativeCodec) (lease : NativeLease)

def publicationSetting := publicationSpec.setting publicationSurroundings
  (publicationBody store codec) (publicationDiscipline lease)

def leaseSetting := leaseSpec.setting publicationSurroundings
  (publicationBody store codec) (publicationDiscipline lease)

end

theorem projection_of_native {st st' : NativeRecords} {current new : Versioned SessionRuntimeRecord}
    {native : Option NativeState} (hread : st .runtime = some current)
    (hset : st' .runtime = some new)
    (hvalue : new.value = { current.value with native := native }) :
    projection (st' .runtime) = projection (st .runtime) := by
  rw [hread, hset, projection, projection, Option.map_some, Option.map_some, hvalue]

/-- The changes of a lease keep the projection. -/
theorem safeNative_lease (codec : NativeCodec) :
    SafeNative codec leaseSpec publicationSurroundings fun _ _ ↦ True where
  numbered _ h := h
  records _ _ h := h.records
  reservations _ _ h := h.reservations
  commits _ _ h := h.commits
  known _ _ _ _ h := h
  steps p w st hinv hchange hprecedes hnumbered := by
    refine ⟨hnumbered, ⟨hprecedes, fun _ _ hread ↦ hchange.reservation hread,
      fun _ _ hread ↦ hchange.commit hread, List.prefix_append _ _⟩, fun hlease ↦ ?_⟩
    cases hchange with
    | annotate new own runtime native others =>
      rw [own] at hlease
      cases hlease
    | reserve lease current requestId count own positive name read holds reserves =>
      exact projection_of_native read reserves.runtime rfl
    | append lease current change own kind read holds appends =>
      exact projection_of_native read appends.runtime rfl

/-! ## Publications

What a publication has lost is counted from its first read on, and every write it lost is in the
log. -/

/-- The publication was made, and the log has it. -/
def Published (pid : ℕ) (runId : String) (seq : ℕ) (snapshot : String) (w : PublicationWorld) :
    Prop :=
  ∃ change ∈ w.ghost, change.pid = pid ∧ Stores runId seq snapshot change.before change.after

def runtimeRevision (w : PublicationWorld) : ℕ := (w.records .runtime).revision

/-- How many writes a publication loses against before it throws. -/
def AgentsStoreKind.losses : AgentsStoreKind → ℕ → ℕ
  | .dynamo, attempts => attempts
  | .sqlite, _ => 1

section

variable {store} {codec : NativeCodec} {lease : NativeLease} {pid : ℕ} {runId : String}
  {seq : ℕ} {snapshot : String}

theorem permanent_revision (n : ℕ) :
    (publicationSetting store codec lease).Permanent fun w ↦ n ≤ runtimeRevision w :=
  fun _ _ _ _ _ _ ⟨hsince, _⟩ h ↦ h.trans (hsince.1.records .runtime).1

theorem permanent_projected :
    (publicationSetting store codec lease).Permanent (Published pid runId seq snapshot) :=
  fun _ _ _ _ _ _ ⟨hsince, _⟩ ⟨change, hmem, h⟩ ↦ ⟨change, hsince.1.log.subset hmem, h⟩

/-- The write of a publication is made, or another one has come between. -/
theorem meets_project {w₀ : PublicationWorld} {current : Versioned SessionRuntimeRecord}
    (hread : w₀.records .runtime = some current)
    (hdue : ¬SessionRuntimeStore.Outdated runId seq current.value) :
    (publicationSetting store codec lease).Meets (pid, .publishNative runId seq snapshot)
      (publicationSpec.since w₀)
      (commitTo store [replaceRuntime current
        (SessionRuntimeStore.project seq snapshot current.value)])
      (fun _ ↦ Published pid runId seq snapshot)
      fun error w ↦ error = .api store.rejection ∧ current.revision + 1 ≤ runtimeRevision w := by
  refine Meets.bind (M := fun reply w ↦ reply ≠ .unknown ∧
    (reply = .done → Published pid runId seq snapshot w) ∧
    (reply = .conflict → current.revision + 1 ≤ runtimeRevision w)) ?_ fun reply ↦ ?_
  · refine meets_perform (RecordSpec.since_permanent w₀).stable
      fun w x reply w' hinv hsince hx ha ↦ ?_
    have hfate : x.fate = .acknowledged := hx
    have hprecedes := hsince.1.records .runtime
    rw [hread] at hprecedes
    have hsettle := Option.some.inj ha
    rw [hfate] at hsettle
    -- A refused commit means a later revision; one that succeeds has found what was read.
    cases hcommit : w.records.commit [replaceRuntime current
        (SessionRuntimeStore.project seq snapshot current.value)] with
    | none =>
      rw [hcommit] at hsettle
      obtain ⟨rfl, rfl⟩ := Prod.mk.inj hsettle
      have hchanged : current.revision ≠ (w.records .runtime).revision := by
        intro heq
        rw [Store.commit,
          if_pos (by simpa [replaceRuntime, Store.Admits] using heq.symm)] at hcommit
        cases hcommit
      refine ⟨hinv, ⟨publicationSpec.since_refl w, .inl rfl⟩, (fun h ↦ by contradiction),
        (fun h ↦ by contradiction), fun _ ↦ ?_⟩
      exact lt_of_le_of_ne hprecedes.1 hchanged
    | some st =>
      rw [hcommit] at hsettle
      obtain ⟨rfl, rfl⟩ := Prod.mk.inj hsettle
      have hfound : w.records .runtime = some current :=
        Store.commit_of_seen hcommit List.mem_cons_self rfl hprecedes
      obtain ⟨-, rfl⟩ := Store.commit_singleton.mp hcommit
      have hstores : Stores runId seq snapshot (w.records .runtime) (w.records.apply
          (replaceRuntime current (SessionRuntimeStore.project seq snapshot current.value))
            .runtime) :=
        ⟨current, hfound, hdue, Store.apply_self _ _⟩
      have hother : ∀ k, k ≠ .runtime → w.records.apply (replaceRuntime current
          (SessionRuntimeStore.project seq snapshot current.value)) k = w.records k :=
        fun k hk ↦ Store.apply_of_ne _ hk
      refine ⟨Store.numbered_of_commit hinv hcommit, ⟨⟨⟨?_, ?_, ?_, List.prefix_append _ _⟩, ?_⟩,
        .inr hstores⟩, (fun h ↦ by contradiction), fun _ ↦ ?_, (fun h ↦ by contradiction)⟩
      · exact Store.precedes_of_commit hcommit (by simp [replaceRuntime])
      · exact fun id record h ↦ (hother (.ids id) (fun h ↦ by contradiction)).trans h
      · exact fun id record h ↦ (hother (.commit id) (fun h ↦ by contradiction)).trans h
      · exact Int.le_of_lt hstores.increases
      · exact ⟨_, List.mem_append_right _ (List.mem_singleton.mpr rfl), rfl, hstores⟩
  · cases reply with
    | done => exact meets_ret fun w _ hw ↦ hw.2.1 rfl
    | conflict => exact meets_raise fun w _ hw ↦ ⟨rfl, hw.2.2 rfl⟩
    | unknown => exact meets_raise fun w _ hw ↦ absurd rfl hw.1

theorem meets_publishAttempts (attempts n : ℕ) :
    (publicationSetting store codec lease).Meets (pid, .publishNative runId seq snapshot)
      (fun w ↦ n ≤ runtimeRevision w)
      (SessionRuntimeStore.publishAttempts (commitTo store) runId seq snapshot attempts)
      (fun published w ↦ published = true → Published pid runId seq snapshot w)
      fun _ w ↦ n + store.losses attempts ≤ runtimeRevision w := by
  induction attempts generalizing n with
  | zero => exact meets_ret fun _ _ _ h ↦ nomatch h
  | succ attempts ih =>
    refine RecordSpec.meets_get (permanent_revision n).stable fun w₀ _ hn ↦ ?_
    cases hread : w₀.records .runtime with
    | none => exact meets_ret fun _ _ _ h ↦ nomatch h
    | some current =>
      have hcurrent : n ≤ current.revision := by
        rw [runtimeRevision, hread] at hn
        exact hn
      dsimp only
      split
      · exact meets_ret fun _ _ _ h ↦ nomatch h
      · next hdue =>
        refine Meets.catching (U := fun error w ↦
          error = .api store.rejection ∧ current.revision + 1 ≤ runtimeRevision w) ?_ fun error ↦ ?_
        · exact Meets.bind (meets_project hread hdue) fun _ ↦ meets_ret fun _ _ h _ ↦ h
        · rintro w hinv ⟨rfl, hrevision⟩
          split
          · next hlast =>
            show n + store.losses (attempts + 1) ≤ runtimeRevision w
            cases store with
            | dynamo =>
              have hattempts : attempts = 0 := hlast.resolve_left (not_not.mpr rfl)
              simp only [AgentsStoreKind.losses]
              omega
            | sqlite =>
              simp only [AgentsStoreKind.losses]
              omega
          · next hagain =>
            cases store with
            | dynamo =>
              refine (ih (current.revision + 1)).conseq (fun _ _ h ↦ h) (fun _ _ _ h ↦ h)
                (fun _ w' _ hbound ↦ ?_) w hinv hrevision
              simp only [AgentsStoreKind.losses] at hbound ⊢
              omega
            | sqlite => exact absurd (.inl (by decide)) hagain

/-! ## The calls of a lease -/

theorem leaseSpec_of_publicationSpec (call : NativeCall) (w w' : PublicationWorld)
    (h : call.Publishes (w.records .runtime) (w'.records .runtime)) :
    call.lease?.isSome = true →
      projection (w'.records .runtime) = projection (w.records .runtime) := by
  intro hlease
  cases call with
  | publishNative => cases hlease
  | _ => exact h

/-- A call of a lease that was verified among any publications. -/
theorem yields_lease {β : Type} {call : NativeCall} (hcall : call.lease?.isSome = true)
    {m : NativeProg β} {F : β → PublicationWorld → Prop} {P : PublicationWorld → Prop}
    (h : (leaseSetting store codec lease).Meets (pid, call) P m F fun _ _ ↦ True) :
    (publicationSetting store codec lease).Meets (pid, call) P m F fun _ _ ↦ True := by
  refine Meets.among (V := publicationSetting store codec lease)
    (leaseSetting store codec lease).guar ?_ ?_ h
  · rintro q e w w' ⟨hsince, hallowed⟩
    exact ⟨hsince.1, leaseSpec_of_publicationSpec q.2 w w' hallowed⟩
  · rintro e w w' ⟨hsince, hallowed⟩
    have hsame := hallowed hcall
    refine ⟨⟨hsince, Int.le_of_eq (projectionSeq_congr hsame).symm⟩, ?_⟩
    change call.Publishes _ _
    cases call with
    | publishNative => cases hcall
    | _ => exact hsame

/-- What a call returns. -/
def NativeCall.PublishedBy (pid : ℕ) : NativeCall → NativeResult → PublicationWorld → Prop
  | .publishNative runId seq snapshot, .published true, w => Published pid runId seq snapshot w
  | _, _, _ => True

theorem permanent_publishedBy (call : NativeCall) (result : NativeResult) :
    (publicationSetting store codec lease).Permanent (call.PublishedBy pid result) := by
  cases call with
  | publishNative runId seq snapshot =>
    cases result with
    | published published =>
      cases published with
      | true => exact permanent_projected
      | false => exact fun _ _ _ _ _ _ _ _ ↦ trivial
    | _ => exact fun _ _ _ _ _ _ _ _ ↦ trivial
  | _ => exact fun _ _ _ _ _ _ _ _ ↦ trivial

variable (store codec lease pid runId seq snapshot) in
/-- A publication throws only when it has lost against enough other writes. -/
theorem meets_publishNative (n : ℕ) :
    (publicationSetting store codec lease).Meets (pid, .publishNative runId seq snapshot)
      (fun w ↦ n ≤ runtimeRevision w)
      (publicationBody store codec (.publishNative runId seq snapshot))
      (NativeCall.PublishedBy pid (.publishNative runId seq snapshot))
      fun _ w ↦ n + store.losses 10 ≤ runtimeRevision w := by
  refine Meets.bind (meets_publishAttempts 10 n) fun published ↦ meets_ret fun w _ h ↦ ?_
  cases published with
  | true => exact h rfl
  | false => trivial

theorem meets_reported {β : Type} {p : ℕ × NativeCall} {P : PublicationWorld → Prop}
    {m : NativeProg β}
    (h : (leaseSetting store codec lease).Meets p P m (fun _ _ ↦ True) fun _ _ ↦ True) :
    (leaseSetting store codec lease).Meets p P (reported store m) (fun _ _ ↦ True)
      fun _ _ ↦ True :=
  Meets.catching h fun _ ↦ meets_raise fun _ _ _ ↦ trivial

theorem meets_publicationBody (p : ℕ × NativeCall) :
    (publicationSetting store codec lease).Meets p ((publicationDiscipline lease).starts p.1 p.2)
      (publicationBody store codec p.2) (p.2.PublishedBy p.1) fun _ _ ↦ True := by
  obtain ⟨pid, call⟩ := p
  have h := safeNative_lease codec
  cases call with
  | publishNative runId seq snapshot =>
    exact (meets_publishNative store codec lease pid runId seq snapshot 0).conseq
      (fun _ _ _ ↦ Nat.zero_le _) (fun _ _ _ hq ↦ hq)
      fun _ _ _ _ ↦ trivial
  | reserveIds lease' count requestId =>
    refine (yields_lease rfl (meets_reported (Meets.bind (h.meets_reserveIds rfl)
      fun range ↦ meets_ret fun _ _ _ ↦ trivial))).conseq ?_ ?_ ?_
    · exact fun _ _ _ ↦ trivial
    · exact fun _ _ _ _ ↦ trivial
    · exact fun _ _ _ _ ↦ trivial
  | commit lease' change =>
    refine (yields_lease rfl (meets_reported (Meets.bind (h.meets_commit rfl)
      fun head ↦ meets_ret fun _ _ _ ↦ trivial))).conseq ?_ ?_ ?_
    · exact fun _ _ _ ↦ trivial
    · exact fun _ _ _ _ ↦ trivial
    · exact fun _ _ _ _ ↦ trivial
  | _ => exact fun _ _ hstarts ↦ absurd hstarts id

end

theorem publicationService_verified (codec : NativeCodec) (lease : NativeLease)
    {init : PublicationWorld} (hinit : init.records.Numbered) :
    (publicationSetting store codec lease).Verified init (fun _ _ _ ↦ True) fun _ _ _ ↦ True where
  init := hinit
  body p := (meets_publicationBody p).conseq (fun _ _ h ↦ h) (fun _ _ _ _ ↦ trivial)
    fun _ _ _ h ↦ h
  post_stable _ _ := stable_true
  fail_stable _ _ := stable_true

/-! ## Every run -/

/-- What publications do in every run from `init`. A call that throws has lost its write to at least
`n` others since its first read. -/
structure PublicationsFollow (codec : NativeCodec) (lease : NativeLease) (init : PublicationWorld)
    (n : ℕ) : Prop where
  /-- A publication stores its snapshot for the head of that moment, or nothing. -/
  stores : ∀ (c c' : PublicationConfig) pid x runId seq snapshot m,
    Reachable (publicationService store codec) (publicationDiscipline lease) init c →
    c.procs pid = some (.publishNative runId seq snapshot, m) →
    Permits (publicationDiscipline lease) c (.resume pid x) →
    (publicationService store codec).step c (.resume pid x) = some c' →
      c'.state.records .runtime = c.state.records .runtime ∨
        Stores runId seq snapshot (c.state.records .runtime) (c'.state.records .runtime)
  /-- The other calls leave what is published alone. -/
  others : ∀ (c c' : PublicationConfig) pid x call m,
    Reachable (publicationService store codec) (publicationDiscipline lease) init c →
    c.procs pid = some (call, m) → call.lease?.isSome = true →
    Permits (publicationDiscipline lease) c (.resume pid x) →
    (publicationService store codec).step c (.resume pid x) = some c' →
      projection (c'.state.records .runtime) = projection (c.state.records .runtime)
  returned : ∀ (c : PublicationConfig) pid runId seq snapshot,
    Reachable (publicationService store codec) (publicationDiscipline lease) init c →
    c.procs pid = some (.publishNative runId seq snapshot, .ret (.published true)) →
      Published pid runId seq snapshot c.state
  thrown : ∀ (c₀ c₁ c : PublicationConfig) pid x runId seq snapshot error,
    Reachable (publicationService store codec) (publicationDiscipline lease) init c₀ →
    c₀.procs pid = some (.publishNative runId seq snapshot,
      publicationBody store codec (.publishNative runId seq snapshot)) →
    Permits (publicationDiscipline lease) c₀ (.resume pid x) →
    (publicationService store codec).step c₀ (.resume pid x) = some c₁ →
    Leads (publicationService store codec) (publicationDiscipline lease) c₁ c →
    c.procs pid = some (.publishNative runId seq snapshot, .raise error) →
      runtimeRevision c₁.state + n ≤ runtimeRevision c.state

theorem publications_follow (codec : NativeCodec) (lease : NativeLease) (init : PublicationWorld)
    (hinit : init.records.Numbered) :
    PublicationsFollow store codec lease init (store.losses 10) := by
  have hV := publicationService_verified store codec lease hinit
  refine ⟨fun c c' pid x runId seq snapshot m hc hproc hpermits hstep ↦ ?_,
    fun c c' pid x call m hc hproc hlease hpermits hstep ↦ ?_,
    fun c pid runId seq snapshot hc hproc ↦ ?_,
    fun c₀ c₁ c pid x runId seq snapshot error hc₀ hproc hpermits hstep hlead hthrown ↦ ?_⟩
  · obtain ⟨call, e, k, a, hwaits, -, -⟩ := step_resume_eq_some hstep
    rw [hproc] at hwaits
    cases hwaits
    exact (hV.resume (hV.reachable hc) hproc hpermits hstep).2.2
  · obtain ⟨call', e, k, a, hwaits, -, -⟩ := step_resume_eq_some hstep
    rw [hproc] at hwaits
    cases hwaits
    exact leaseSpec_of_publicationSpec call _ _
      (hV.resume (hV.reachable hc) hproc hpermits hstep).2.2 hlease
  · -- The publication is followed from its start, with no revision to begin with.
    obtain ⟨c₀, hc₀, hbody, hlead⟩ := hc.started hproc
    have hsound := hV.reachable hc₀
    have hsafe := meets_publishNative store codec lease pid runId seq snapshot 0 c₀.state hsound.inv
      (Nat.zero_le _)
    obtain ⟨m, hm, hreturned⟩ := hV.follow (fun _ ↦ (permanent_publishedBy _ _).stable)
      (fun _ ↦ (permanent_revision _).stable) hsound hbody hsafe hlead
    rw [hproc] at hm
    cases hm
    exact hreturned
  · have hsound := hV.reachable hc₀
    -- The first step reads, so the revision is that of the record it reads.
    have hread : c₁.state = c₀.state := by
      obtain ⟨call, e, k, a, hwaits, hanswer, -⟩ := step_resume_eq_some hstep
      rw [hproc] at hwaits
      cases hwaits
      exact (Prod.mk.inj (Option.some.inj hanswer)).2.symm
    have hsafe := meets_publishNative store codec lease pid runId seq snapshot
      (runtimeRevision c₀.state) c₀.state hsound.inv le_rfl
    obtain ⟨m, hm, hbound⟩ := hV.follow (fun _ ↦ (permanent_publishedBy _ _).stable)
      (fun _ ↦ (permanent_revision _).stable) hsound hproc hsafe
      ((Leads.refl.step hpermits hstep).trans hlead)
    rw [hthrown] at hm
    cases hm
    rw [hread]
    exact hbound

/-! ## A reservation between the read and the write of a publication

Over the SQLite store this one write makes the publication throw. -/

def sampleLease : NativeLease := ⟨"run", 0⟩

/-- The runtime record after the first commit of a Run. -/
def samplePublicationWorld : PublicationWorld :=
  ⟨Function.update (fun _ ↦ none) .runtime
    (some ⟨1, { (SessionRuntimeStore.noRuntime : SessionRuntimeRecord) with
    runId := some "run", epoch := some 0, native := some ⟨5, some ⟨1, "c", "d"⟩⟩ }⟩), []⟩

/-- A publication for the head of the record reads it. Then the same engine reserves ids. -/
def sampleRace : List (Event NativeCall (RecordChoice Unit)) :=
  [.start 1 (.reserveIds sampleLease 2 "request"), .resume 1 ⟨(), .acknowledged⟩,
    .resume 1 ⟨(), .acknowledged⟩, .resume 1 ⟨(), .acknowledged⟩, .resume 0 ⟨(), .acknowledged⟩]

instance (lease : NativeLease) : (call : NativeCall) → Decidable (call.OfLease lease)
  | .publishNative runId _ _ => inferInstanceAs (Decidable (runId = lease.runId))
  | .reserveIds lease' _ _ => inferInstanceAs (Decidable (lease' = lease))
  | .commit lease' _ => inferInstanceAs (Decidable (lease' = lease))
  | .claim _ _ | .close | .publish _ _ | .saveRecovery _ _ | .assertActive _ | .load _
  | .openPiStorage _ _ => inferInstanceAs (Decidable False)

instance (lease : NativeLease) : (publicationDiscipline lease).Checked where
  starts _ call _ := inferInstanceAs (Decidable (call.OfLease lease))
  answers _ _ x _ := inferInstanceAs (Decidable (x.fate = .acknowledged))

theorem numbered_samplePublicationWorld : samplePublicationWorld.records.Numbered := by
  intro k v hread
  cases k with
  | runtime =>
    cases hread
    exact Nat.one_pos
  | ids id => cases hread
  | commit id => cases hread

def samplePublicationCodec : NativeCodec := ⟨fun change ↦ change.commitId, fun _ ↦ 0⟩

def sampleProjection : NativeCall := .publishNative "run" 1 "snapshot"

/-- The publication has begun. -/
def sampleReading : PublicationConfig :=
  ⟨samplePublicationWorld, Function.update (fun _ ↦ none) 0
    (some (sampleProjection, publicationBody .sqlite samplePublicationCodec sampleProjection))⟩

theorem reachable_sampleReading :
    Reachable (publicationService .sqlite samplePublicationCodec)
      (publicationDiscipline sampleLease) samplePublicationWorld sampleReading := by
  have hpermits : Permits (publicationDiscipline sampleLease)
      (Config.initial samplePublicationWorld : PublicationConfig) (.start 0 sampleProjection) := rfl
  exact .step .refl hpermits rfl

/-- With the SQLite store an engine is stopped by a write of its own. -/
theorem publication_stopped :
    ¬∀ (store : AgentsStoreKind) (codec : NativeCodec) (lease : NativeLease)
      (init : PublicationWorld), init.records.Numbered →
        PublicationsFollow store codec lease init 10 := by
  intro h
  have hrun : ((publicationService .sqlite samplePublicationCodec).step sampleReading
      (.resume 0 ⟨(), .acknowledged⟩)).bind (fun c₁ ↦
        ((publicationService .sqlite samplePublicationCodec).run
          (publicationDiscipline sampleLease) sampleRace c₁).map fun c ↦
            (runtimeRevision c.state, c.outcome 0)) =
      some (2, some (sampleProjection,
        some (.error (.api AgentsStoreKind.sqlite.rejection)))) := by
    decide
  obtain ⟨c₁, hc₁, hrest⟩ := Option.bind_eq_some_iff.mp hrun
  obtain ⟨c, hc, hfields⟩ := Option.map_eq_some_iff.mp hrest
  obtain ⟨hrevision, houtcome⟩ := Prod.mk.inj hfields
  have hten := (h .sqlite samplePublicationCodec sampleLease samplePublicationWorld
    numbered_samplePublicationWorld).thrown sampleReading c₁ c 0 _ "run" 1 "snapshot" _
      reachable_sampleReading rfl (by decide) hc₁ (leads_of_run hc)
        (Config.procs_of_outcome_error houtcome)
  omega

/-- Nobody interferes, and the publication is made. -/
theorem sampleProjection_returned :
    ∃ c : PublicationConfig, (publicationService .sqlite samplePublicationCodec).run
        (publicationDiscipline sampleLease)
        [.resume 0 ⟨(), .acknowledged⟩, .resume 0 ⟨(), .acknowledged⟩] sampleReading = some c ∧
      Published 0 "run" 1 "snapshot" c.state := by
  have hrun : ((publicationService .sqlite samplePublicationCodec).run
      (publicationDiscipline sampleLease)
      [.resume 0 ⟨(), .acknowledged⟩, .resume 0 ⟨(), .acknowledged⟩] sampleReading).map
        (·.outcome 0) = some (some (sampleProjection, some (.ok (.published true)))) := by
    decide
  obtain ⟨c, hc, houtcome⟩ := Option.map_eq_some_iff.mp hrun
  refine ⟨c, hc, ?_⟩
  exact (publications_follow .sqlite samplePublicationCodec sampleLease samplePublicationWorld
    numbered_samplePublicationWorld).returned c 0 "run" 1 "snapshot"
      (reachable_sampleReading.trans (leads_of_run hc)) (Config.procs_of_outcome houtcome)

end RatThings
