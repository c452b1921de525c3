import Mathlib.Algebra.Order.BigOperators.Group.Finset
import RatThings.Agents.Store
import RatThings.Library.Digest

/-!
# The owner rate limit

An owner may be admitted for a limited cost each minute. The counter of the current minute and a
receipt for the operation are written in one transaction, so an operation that is retried, or whose
commit lost its answer, is recognised by its receipt.

The minute is the caller's own, unless the counter is already ahead of it: clocks may disagree, and
a slow one must not reset the counter of a newer minute.

## The invariant

`Consistent` says that the counter of an owner is the sum of what was charged for the receipts
counted in its minute, and that no minute before it came to more than the limit. The receipts of a
minute are a finite set (`Tally`), so that sums over them are sums over sets. A commit adds one
receipt to the current minute, or opens a new one.

## History

No caller reads the history, which remembers in which minute each receipt was counted. It is read
off the records before and after each commit.
-/

namespace RatThings

open Concurrent Prog Service Setting

/-! ## Records and questions -/

inductive RateKey : Type
  | current (ownerId : String)
  | admission (ownerId id : String)
deriving DecidableEq, Repr

/-- The counter of one minute. -/
structure RateWindow where
  minute : ℕ
  requests : ℤ
deriving DecidableEq, Repr

abbrev RateValue : RateKey → Type
  | .current _ => RateWindow
  | .admission _ _ => ℤ

inductive RateAsk : Type
  | now
deriving DecidableEq, Repr

abbrev RateAsk.Answer : RateAsk → Type
  | .now => ℕ

/-- The minute in which a receipt was counted, by owner and receipt id. -/
abbrev RateHistory : Type := String → String → Option ℕ

abbrev RateStore : Type := Store RateKey RateValue

/-- A receipt that is there now and was not before was counted in the current minute. -/
def RateHistory.observe (history : RateHistory) (old new : RateStore) : RateHistory :=
  fun ownerId id ↦
    match old (.admission ownerId id), new (.admission ownerId id) with
    | none, some _ => (new (.current ownerId)).map (·.value.minute)
    | _, _ => history ownerId id

def rateSurroundings : Surroundings RateKey RateValue RateAsk RateAsk.Answer RateHistory ℕ where
  answer _ q now history := match q with | .now => some (now, history)
  observe _ old new history := history.observe old new

abbrev RateProg : Type → Type := StoreProg RateKey RateValue RateAsk.Answer

/-! ## The limiter -/

/-- The limit of each owner, and the name under which an operation is filed. -/
structure OwnerRateLimiter where
  limit : String → ℤ
  /-- A digest of the operation id. -/
  admissionId : String → String
  admissionId_injective : Function.Injective admissionId

namespace OwnerRateLimiter

/-- The operation was admitted before, and at the same cost. -/
def same (requests previous : ℤ) : RateProg Unit :=
  if previous ≠ requests then
    throw (.api ⟨409, "Admission changed on retry.", some "idempotency_conflict", none⟩)
  else pure ()

/-- A whole number that a double holds exactly. -/
def isSafeInteger (n : ℤ) : Bool := n.natAbs ≤ 9007199254740991

/-- The minute in which an admission is counted. -/
def minuteOf (now : ℕ) (previous : Slot RateWindow) : ℕ :=
  max (now / 60) ((previous.map (·.value.minute)).getD 0)

/-- What the counter of that minute stands at. -/
def countedIn (minute : ℕ) (previous : Slot RateWindow) : ℤ :=
  match previous with
  | some p => if p.value.minute = minute then p.value.requests else 0
  | none => 0

/-- The attempts of an admission. The last one passes its failure on. -/
def admitAttempts (maximum : ℤ) (ownerId id : String) (requests : ℤ) : ℕ → RateProg Unit
  | 0 => pure ()
  | attempts + 1 => do
    let receipt ← perform (RecordEffect.get (RateKey.admission ownerId id))
    match receipt with
    | some receipt => same requests receipt.value
    | none => do
      let now ← perform (RecordEffect.ask RateAsk.now)
      let previous ← perform (RecordEffect.get (RateKey.current ownerId))
      let minute := minuteOf now previous
      let total := countedIn minute previous + requests
      if maximum < total then
        throw (.api ⟨429, "The owner execution rate limit is exhausted. Retry later.",
          some "owner_rate_limit_exceeded", none⟩)
      else
        tryCatch
          (commitWrites [
            ⟨RateKey.current ownerId, previous.revision, some (⟨minute, total⟩ : RateWindow)⟩,
            ⟨RateKey.admission ownerId id, 0, some requests⟩])
          fun error ↦ do
            let committed ← perform (RecordEffect.get (RateKey.admission ownerId id))
            match committed with
            | some receipt => same requests receipt.value
            | none =>
              if !error.hasCode "conflict" || attempts = 0 then throw error
              else admitAttempts maximum ownerId id requests attempts

def isInvalid (maximum requests : ℤ) : Bool :=
  !isSafeInteger maximum || maximum < 0 || !isSafeInteger requests || requests < 1

variable (limiter : OwnerRateLimiter)

def admitOperation (ownerId operationId : String) (requests : ℤ) : RateProg Unit :=
  let maximum := limiter.limit ownerId
  if isInvalid maximum requests then throw (.error "Invalid owner rate limit")
  else admitAttempts maximum ownerId (limiter.admissionId operationId) requests 20

structure Call where
  ownerId : String
  operationId : String
  requests : ℤ
deriving DecidableEq, Repr

def body (call : Call) : RateProg Unit :=
  limiter.admitOperation call.ownerId call.operationId call.requests

def service := rateSurroundings.service limiter.body

/-! ## The invariant -/

abbrev RateWorld : Type := RecordWorld RateKey RateValue RateHistory

/-- What was charged for a receipt. -/
def cost (w : RateWorld) (ownerId id : String) : ℤ :=
  ((w.records (.admission ownerId id)).map (·.value)).getD 0

/-- The receipts counted in one minute, and what they come to. -/
structure Tally (w : RateWorld) (ownerId : String) (minute : ℕ) (ids : Finset String) : Prop where
  mem : ∀ id, id ∈ ids ↔ w.ghost ownerId id = some minute
  /-- The counter of this minute counts these receipts and no others. -/
  exact : ∀ window, w.records (.current ownerId) = some window → window.value.minute = minute →
    ∑ id ∈ ids, cost w ownerId id = window.value.requests
  bounded : ids = ∅ ∨ ∑ id ∈ ids, cost w ownerId id ≤ limiter.limit ownerId

/-- The counters and receipts of every owner agree. -/
structure Consistent (w : RateWorld) : Prop where
  numbered : w.records.Numbered
  counted : ∀ ownerId id, (w.ghost ownerId id).isSome ↔
    (w.records (.admission ownerId id)).isSome
  valid : ∀ ownerId id receipt, w.records (.admission ownerId id) = some receipt →
    isInvalid (limiter.limit ownerId) receipt.value = false
  /-- Nothing was counted in a minute that is still to come. -/
  past : ∀ ownerId id minute, w.ghost ownerId id = some minute →
    ∃ window, w.records (.current ownerId) = some window ∧ minute ≤ window.value.minute
  tally : ∀ ownerId minute, ∃ ids, limiter.Tally w ownerId minute ids

/-- Receipts are for good, and so is the minute in which they were counted. -/
structure Since (w w' : RateWorld) : Prop where
  records : ∀ k, (w.records k).Precedes (w'.records k)
  receipts : ∀ ownerId id receipt, w.records (.admission ownerId id) = some receipt →
    w'.records (.admission ownerId id) = some receipt
  counted : ∀ ownerId id minute, w.ghost ownerId id = some minute →
    w'.ghost ownerId id = some minute

/-- An admission that has its receipt changes nothing. -/
def Quiet (call : Call) (w w' : RateWorld) : Prop :=
  (w.records (.admission call.ownerId (limiter.admissionId call.operationId))).isSome → w' = w

def spec : RecordSpec RateKey RateValue RateHistory Call where
  inv := limiter.Consistent
  since := Since
  allowed p := limiter.Quiet p.2
  since_refl _ := ⟨fun _ ↦ .refl _, fun _ _ _ h ↦ h, fun _ _ _ h ↦ h⟩
  since_trans h h' := ⟨fun k ↦ (h.records k).trans (h'.records k),
    fun ownerId id receipt hr ↦ h'.receipts ownerId id receipt (h.receipts ownerId id receipt hr),
    fun ownerId id minute hm ↦ h'.counted ownerId id minute (h.counted ownerId id minute hm)⟩
  allowed_refl _ _ _ := rfl

abbrev setting := limiter.spec.setting rateSurroundings limiter.body .free

/-! ## One admission

What the transaction does when it takes effect: it has found the counter and the missing receipt as
they were read. -/

section

variable {limiter} {w w' : RateWorld} {ownerId id : String} {now : ℕ}
  {requests : ℤ}

/-- The writes of an admission that found this counter. -/
def admission (ownerId id : String) (previous : Slot RateWindow) (now : ℕ) (requests : ℤ) :
    List (Write RateKey RateValue) :=
  [⟨RateKey.current ownerId, previous.revision,
      some (⟨minuteOf now previous, countedIn (minuteOf now previous) previous + requests⟩ :
        RateWindow)⟩,
    ⟨RateKey.admission ownerId id, 0, some requests⟩]

/-- What a successful admission leaves. -/
theorem admission_records {previous : Slot RateWindow} (hw : w.records.Numbered)
    (h : w.records.commit (admission ownerId id previous now requests) = some w'.records) :
    w.records (.admission ownerId id) = none ∧
      w'.records (.current ownerId) = some ⟨previous.revision + 1, minuteOf now previous,
        countedIn (minuteOf now previous) previous + requests⟩ ∧
      w'.records (.admission ownerId id) = some ⟨1, requests⟩ ∧
      (∀ owner, owner ≠ ownerId → w'.records (.current owner) = w.records (.current owner)) ∧
      ∀ owner other, ¬(owner = ownerId ∧ other = id) →
        w'.records (.admission owner other) = w.records (.admission owner other) := by
  refine ⟨Store.eq_none_of_commit hw h (List.mem_cons_of_mem _ (List.mem_singleton.mpr rfl)) rfl,
    ?_, ?_, fun owner hne ↦ ?_, fun owner other hne ↦ ?_⟩
  · refine Store.commit_written h List.mem_cons_self fun write hwrite hkey ↦ ?_
    rcases List.mem_pair.mp hwrite with rfl | rfl
    · rfl
    · cases hkey
  · refine Store.commit_written h (List.mem_cons_of_mem _ (List.mem_singleton.mpr rfl))
      fun write hwrite hkey ↦ ?_
    rcases List.mem_pair.mp hwrite with rfl | rfl
    · cases hkey
    · rfl
  · refine Store.commit_frame h fun write hwrite ↦ ?_
    rcases List.mem_pair.mp hwrite with rfl | rfl
    · simpa using hne
    · simp
  · refine Store.commit_frame h fun write hwrite ↦ ?_
    rcases List.mem_pair.mp hwrite with rfl | rfl
    · simp
    · simpa using hne

/-- A successful admission counts its own receipt, and no other. -/
theorem observe_admission {previous : Slot RateWindow} (hw : limiter.Consistent w)
    (h : w.records.commit (admission ownerId id previous now requests) = some w'.records)
    (hg : w'.ghost = w.ghost.observe w.records w'.records) (owner other : String) :
    w'.ghost owner other =
      if owner = ownerId ∧ other = id then some (minuteOf now previous)
      else w.ghost owner other := by
  obtain ⟨habsent, hcurrent, hreceipt, -, hother⟩ := admission_records hw.numbered h
  rw [hg, RateHistory.observe]
  by_cases hsame : owner = ownerId ∧ other = id
  · obtain ⟨rfl, rfl⟩ := hsame
    simp only [habsent, hreceipt, hcurrent, Option.map_some, and_self, if_true]
  · rw [if_neg hsame, hother owner other hsame]
    cases hrecord : w.records (.admission owner other) <;> rfl

theorem cost_admission {previous : Slot RateWindow} (hw : w.records.Numbered)
    (h : w.records.commit (admission ownerId id previous now requests) = some w'.records)
    (owner other : String) :
    cost w' owner other =
      if owner = ownerId ∧ other = id then requests else cost w owner other := by
  obtain ⟨-, -, hreceipt, -, hother⟩ := admission_records hw h
  unfold cost
  by_cases hsame : owner = ownerId ∧ other = id
  · obtain ⟨rfl, rfl⟩ := hsame
    rw [if_pos ⟨rfl, rfl⟩, hreceipt]
    rfl
  · rw [if_neg hsame, hother owner other hsame]

/-- The counter that an admission starts from counts the receipts of its minute. -/
theorem Tally.countedIn {ids : Finset String} (hw : limiter.Consistent w)
    (h : limiter.Tally w ownerId (minuteOf now (w.records (.current ownerId))) ids) :
    ∑ other ∈ ids, cost w ownerId other =
      countedIn (minuteOf now (w.records (.current ownerId))) (w.records (.current ownerId)) := by
  unfold OwnerRateLimiter.countedIn
  cases hprevious : w.records (.current ownerId) with
  | none =>
    -- Nothing can have been counted without a counter.
    have hempty : ids = ∅ := by
      refine Finset.eq_empty_of_forall_notMem fun other hmem ↦ ?_
      obtain ⟨window, hwindow, -⟩ := hw.past ownerId other _ ((h.mem other).mp hmem)
      rw [hprevious] at hwindow
      cases hwindow
    rw [hempty, Finset.sum_empty]
  | some window =>
    rw [hprevious] at h
    dsimp only
    split
    · next hminute => exact h.exact window hprevious hminute
    · next hminute =>
      have hempty : ids = ∅ := by
        refine Finset.eq_empty_of_forall_notMem fun other hmem ↦ hminute ?_
        obtain ⟨window', hwindow, hle⟩ := hw.past ownerId other _ ((h.mem other).mp hmem)
        obtain rfl : window = window' := Option.some.inj (hprevious.symm.trans hwindow)
        exact le_antisymm (le_max_right _ _) hle
      rw [hempty, Finset.sum_empty]

/-- The tally of an owner and minute after an admission. -/
theorem tally_admission (hw : limiter.Consistent w)
    (h : w.records.commit (admission ownerId id (w.records (.current ownerId)) now requests) =
      some w'.records) (hg : w'.ghost = w.ghost.observe w.records w'.records)
    (hle : countedIn (minuteOf now (w.records (.current ownerId))) (w.records (.current ownerId)) +
      requests ≤ limiter.limit ownerId) (owner : String) (minute : ℕ) :
    ∃ ids, limiter.Tally w' owner minute ids := by
  obtain ⟨habsent, hcurrent, -, hothers, -⟩ := admission_records hw.numbered h
  obtain ⟨ids, htally⟩ := hw.tally owner minute
  have hnew : id ∉ ids ∨ owner ≠ ownerId := by
    by_contra hcontra
    rw [not_or, not_not, not_not] at hcontra
    obtain ⟨hmem, rfl⟩ := hcontra
    have hsome := (hw.counted owner id).mp
      (Option.isSome_iff_exists.mpr ⟨_, (htally.mem id).mp hmem⟩)
    rw [habsent] at hsome
    cases hsome
  have hsum : id ∉ ids ∨ owner ≠ ownerId →
      ∑ other ∈ ids, cost w' owner other = ∑ other ∈ ids, cost w owner other := by
    refine fun hnew ↦ Finset.sum_congr rfl fun other hmem ↦ ?_
    rw [cost_admission hw.numbered h, if_neg]
    rintro ⟨rfl, rfl⟩
    exact hnew.elim (fun hne ↦ hne hmem) fun hne ↦ hne rfl
  by_cases hhere : owner = ownerId ∧ minute = minuteOf now (w.records (.current ownerId))
  · -- The minute in which the operation is counted.
    obtain ⟨rfl, rfl⟩ := hhere
    have hid : id ∉ ids := hnew.resolve_right fun hne ↦ hne rfl
    have htotal : ∑ other ∈ insert id ids, cost w' owner other =
        countedIn (minuteOf now (w.records (.current owner))) (w.records (.current owner)) +
          requests := by
      rw [Finset.sum_insert hid, hsum (.inl hid), htally.countedIn hw,
        cost_admission hw.numbered h, if_pos ⟨rfl, rfl⟩, add_comm]
    refine ⟨insert id ids, fun other ↦ ?_, fun window hwindow _ ↦ ?_, .inr (htotal ▸ hle)⟩
    · rw [observe_admission hw h hg, Finset.mem_insert]
      by_cases hother : other = id
      · simp [hother]
      · simp [hother, htally.mem other]
    · rw [htotal]
      rw [hcurrent] at hwindow
      rw [← Option.some.inj hwindow]
  · refine ⟨ids, fun other ↦ ?_, fun window hwindow hminute ↦ ?_, ?_⟩
    · rw [observe_admission hw h hg, htally.mem other]
      by_cases hsame : owner = ownerId ∧ other = id
      · obtain ⟨rfl, rfl⟩ := hsame
        have hghost : w.ghost owner other = none := by
          rw [← Option.not_isSome_iff_eq_none, hw.counted, habsent]
          simp
        rw [if_pos ⟨rfl, rfl⟩, hghost]
        simp only [Option.some.injEq, reduceCtorEq, false_iff]
        exact fun hm ↦ hhere ⟨rfl, hm.symm⟩
      · rw [if_neg hsame]
    · rw [hsum hnew]
      by_cases howner : owner = ownerId
      · subst howner
        rw [hcurrent] at hwindow
        cases hwindow
        exact absurd ⟨rfl, hminute.symm⟩ hhere
      · rw [hothers owner howner] at hwindow
        exact htally.exact window hwindow hminute
    · rw [hsum hnew]
      exact htally.bounded

theorem consistent_admission (hw : limiter.Consistent w)
    (h : w.records.commit (admission ownerId id (w.records (.current ownerId)) now requests) =
      some w'.records) (hg : w'.ghost = w.ghost.observe w.records w'.records) (hvalid :
        isInvalid (limiter.limit ownerId) requests = false)
    (hle : countedIn (minuteOf now (w.records (.current ownerId))) (w.records (.current ownerId)) +
      requests ≤ limiter.limit ownerId) :
    limiter.Consistent w' ∧ Since w w' := by
  obtain ⟨habsent, hcurrent, hreceipt, hothers, hrest⟩ := admission_records hw.numbered h
  -- One admission more is counted now.
  have hghost : ∀ owner other, w'.ghost owner other = if owner = ownerId ∧ other = id then
      some (minuteOf now (w.records (.current ownerId))) else w.ghost owner other :=
    fun owner other ↦ observe_admission hw h hg owner other
  refine ⟨⟨Store.numbered_of_commit hw.numbered h, fun owner other ↦ ?_,
    fun owner other receipt hr ↦ ?_, fun owner other minute hm ↦ ?_,
    fun owner minute ↦ tally_admission hw h hg hle owner minute⟩,
    ⟨Store.precedes_of_commit h ?_, fun owner other receipt hr ↦ ?_,
      fun owner other minute hm ↦ ?_⟩⟩
  · rw [hghost]
    by_cases hsame : owner = ownerId ∧ other = id
    · obtain ⟨rfl, rfl⟩ := hsame
      simp [hreceipt]
    · rw [if_neg hsame, hw.counted, hrest owner other hsame]
  · by_cases hsame : owner = ownerId ∧ other = id
    · obtain ⟨rfl, rfl⟩ := hsame
      rw [hreceipt] at hr
      cases hr
      exact hvalid
    · exact hw.valid owner other receipt ((hrest owner other hsame).symm.trans hr)
  · rw [hghost] at hm
    by_cases hsame : owner = ownerId ∧ other = id
    · obtain ⟨rfl, rfl⟩ := hsame
      rw [if_pos ⟨rfl, rfl⟩] at hm
      cases hm
      exact ⟨_, hcurrent, le_rfl⟩
    · rw [if_neg hsame] at hm
      obtain ⟨window, hwindow, hminute⟩ := hw.past owner other minute hm
      by_cases howner : owner = ownerId
      · subst howner
        refine ⟨_, hcurrent, hminute.trans ?_⟩
        simp [minuteOf, hwindow]
      · exact ⟨window, (hothers owner howner).trans hwindow, hminute⟩
  · simp [admission]
  · refine (hrest owner other ?_).trans hr
    rintro ⟨rfl, rfl⟩
    rw [habsent] at hr
    cases hr
  · rw [hghost, if_neg]
    · exact hm
    · rintro ⟨rfl, rfl⟩
      have hsome := (hw.counted owner other).mp (Option.isSome_iff_exists.mpr ⟨_, hm⟩)
      rw [habsent] at hsome
      cases hsome

end

/-! ## The calls

An admission tries again after a conflict. By then its receipt may be there, from a commit of its
own that lost its answer, and then nothing is charged again. -/

/-- The operation has its receipt. -/
def Call.Filed (call : Call) (w : RateWorld) : Prop :=
  ∃ receipt, w.records (.admission call.ownerId (limiter.admissionId call.operationId)) =
    some receipt ∧ receipt.value = call.requests

section

variable {limiter} {p : ℕ × Call}

theorem Call.Filed.since {call : Call} {w w' : RateWorld} (h : call.Filed limiter w)
    (hsince : Since w w') : call.Filed limiter w' := by
  obtain ⟨receipt, hread, hvalue⟩ := h
  exact ⟨receipt, hsince.receipts _ _ _ hread, hvalue⟩

/-- A receipt that was found decides the outcome. -/
theorem meets_same {w₀ : RateWorld}
    {receipt : Versioned (RateValue (.admission p.2.ownerId (limiter.admissionId p.2.operationId)))}
    (hread : w₀.records (.admission p.2.ownerId (limiter.admissionId p.2.operationId)) =
      some receipt) :
    limiter.setting.Meets p (limiter.spec.since w₀) (same p.2.requests receipt.value)
      (fun _ ↦ p.2.Filed limiter) fun _ _ ↦ True := by
  unfold same
  split
  · exact meets_raise fun _ _ _ ↦ trivial
  · next heq =>
    refine meets_ret fun w _ hsince ↦ ?_
    exact ⟨receipt, hsince.receipts _ _ _ hread, not_not.mp heq⟩

theorem meets_admission {w₀ : RateWorld} {now : ℕ}
    (hvalid : isInvalid (limiter.limit p.2.ownerId) p.2.requests = false)
    (hle : countedIn (minuteOf now (w₀.records (.current p.2.ownerId)))
      (w₀.records (.current p.2.ownerId)) + p.2.requests ≤ limiter.limit p.2.ownerId) :
    limiter.setting.Meets p (limiter.spec.since w₀)
      (commitWrites (admission p.2.ownerId (limiter.admissionId p.2.operationId)
        (w₀.records (.current p.2.ownerId)) now p.2.requests) : RateProg Unit)
      (fun _ ↦ p.2.Filed limiter) fun _ _ ↦ True := by
  refine (meets_commitWrites (R := p.2.Filed limiter) (RecordSpec.since_permanent w₀)
    fun w st hinv hsince hst ↦ ?_).conseq (fun _ _ hp ↦ hp) (fun _ _ _ hq ↦ hq.2)
      fun _ _ _ _ ↦ trivial
  have hfound : w.records (.current p.2.ownerId) = w₀.records (.current p.2.ownerId) :=
    Store.commit_of_seen hst List.mem_cons_self rfl (hsince.records _)
  rw [← hfound] at hst hle
  let w' : RateWorld := ⟨st, w.ghost.observe w.records st⟩
  have hcommit : w.records.commit (admission p.2.ownerId (limiter.admissionId p.2.operationId)
      (w.records (.current p.2.ownerId)) now p.2.requests) = some w'.records := hst
  obtain ⟨habsent, -, hreceipt, -⟩ := admission_records hinv.numbered hcommit
  obtain ⟨hinv', hsince'⟩ := consistent_admission hinv hcommit rfl hvalid hle
  refine ⟨⟨hinv', hsince', fun hsome ↦ ?_⟩, _, hreceipt, rfl⟩
  rw [habsent] at hsome
  cases hsome

theorem yields_now : limiter.setting.Yields p
    (Prog.perform (RecordEffect.ask RateAsk.now) : RateProg ℕ) fun _ ↦ True :=
  (RecordSpec.yields_ask fun _ _ _ _ h ↦ (Prod.mk.inj (Option.some.inj h)).2.symm).forget

/-- An admission that returns has its receipt. The attempts do not run out: the last one passes
its failure on. -/
theorem meets_admitAttempts (hvalid : isInvalid (limiter.limit p.2.ownerId) p.2.requests = false)
    {attempts : ℕ} (hattempts : attempts ≠ 0) :
    limiter.setting.Meets p (fun _ ↦ True)
      (admitAttempts (limiter.limit p.2.ownerId) p.2.ownerId (limiter.admissionId p.2.operationId)
        p.2.requests attempts) (fun _ ↦ p.2.Filed limiter) fun _ _ ↦ True := by
  induction attempts with
  | zero => exact absurd rfl hattempts
  | succ attempts ih =>
    refine RecordSpec.meets_get stable_true fun w₀ _ _ ↦ ?_
    split
    · next receipt hread => exact meets_same hread
    refine yields_now.seq (RecordSpec.since_permanent w₀) fun now _ ↦ ?_
    refine RecordSpec.meets_get (RecordSpec.since_permanent w₀).stable fun w₁ _ _ ↦ ?_
    dsimp only
    split
    · exact meets_raise fun _ _ _ ↦ trivial
    next hle =>
    refine Meets.catching (U := fun _ _ ↦ True) (meets_admission hvalid (not_lt.mp hle))
      fun error ↦ ?_
    refine RecordSpec.meets_get stable_true fun w₂ _ _ ↦ ?_
    split
    · next receipt hread => exact meets_same hread
    split
    · exact meets_raise fun _ _ _ ↦ trivial
    · next hretry =>
      refine (ih ?_).pre fun _ _ _ ↦ trivial
      simp only [Bool.or_eq_true, decide_eq_true_eq, not_or] at hretry
      exact hretry.2

theorem meets_admit : limiter.setting.Meets p (fun _ ↦ True) (limiter.body p.2)
    (fun _ ↦ p.2.Filed limiter) fun _ _ ↦ True := by
  unfold body admitOperation
  dsimp only
  split
  · exact meets_raise fun _ _ _ ↦ trivial
  · next hvalid => exact meets_admitAttempts (Bool.not_eq_true _ ▸ hvalid) (by decide)

/-- A call for an operation that has a receipt ends with the first look at it. -/
theorem meets_admit_again {cost : ℤ} :
    limiter.setting.Meets p
      (fun w ↦ ∃ receipt, w.records (.admission p.2.ownerId (limiter.admissionId p.2.operationId)) =
        some receipt ∧ receipt.value = cost) (limiter.body p.2)
      (fun _ _ ↦ cost = p.2.requests) fun _ _ ↦ cost ≠ p.2.requests := by
  unfold body admitOperation
  dsimp only
  split
  · next hinvalid =>
    refine meets_raise fun w hinv ⟨receipt, hread, hcost⟩ heq ↦ ?_
    have hvalid := hinv.valid _ _ receipt hread
    rw [hcost, heq, hinvalid] at hvalid
    cases hvalid
  · refine RecordSpec.meets_get ?_ fun w₀ _ ⟨receipt, hread, hcost⟩ ↦ ?_
    · rintro q e s t - - - ⟨hsince, -⟩ ⟨receipt, hread, hcost⟩
      exact ⟨receipt, hsince.receipts _ _ _ hread, hcost⟩
    rw [hread]
    unfold same
    dsimp only
    split
    · next hne => exact meets_raise fun _ _ _ ↦ hcost ▸ hne
    · next heq => exact meets_ret fun _ _ _ ↦ hcost ▸ not_not.mp heq

end

/-! ## Every run

`Enforced` puts together what the invariant says of a configuration and what the calls say of what
they return. -/

section

variable {limiter}

abbrev RateConfig : Type :=
  Config RateWorld (RecordEffect RateKey RateValue RateAsk)
    (RecordEffect.Answer RateAsk.Answer) ServiceFailure Unit Call

/-- Nothing has been admitted. -/
def fresh : RateWorld := ⟨fun _ ↦ none, fun _ _ ↦ none⟩

theorem consistent_fresh : limiter.Consistent fresh := by
  refine ⟨fun _ _ h ↦ (nomatch h), fun _ _ ↦ Iff.rfl, fun _ _ _ h ↦ (nomatch h),
    fun _ _ _ h ↦ (nomatch h),
      fun ownerId minute ↦ ⟨∅, fun id ↦ ?_, fun _ h ↦ (nomatch h), .inl rfl⟩⟩
  simp [fresh]

theorem verified : limiter.setting.Verified fresh (fun call _ ↦ call.Filed limiter)
    fun _ _ _ ↦ True where
  init := consistent_fresh
  body _ := meets_admit.pre fun _ _ _ ↦ trivial
  post_stable _ _ _ _ _ _ _ _ _ hg h := h.since hg.1
  fail_stable _ _ := stable_true

variable (limiter) in
/-- What the limit promises in a configuration. -/
structure Enforced (c : RateConfig) : Prop where
  /-- The operations of an owner that were counted in one minute stay within the limit. -/
  bounded : ∀ ownerId minute (operations : Finset String), operations.Nonempty →
    (∀ operationId ∈ operations,
      c.state.ghost ownerId (limiter.admissionId operationId) = some minute) →
    ∑ operationId ∈ operations, cost c.state ownerId (limiter.admissionId operationId) ≤
      limiter.limit ownerId
  /-- The counter counts each receipt of its minute once, and nothing else. -/
  exact : ∀ ownerId window, c.state.records (.current ownerId) = some window →
    ∃ ids : Finset String, (∀ id, id ∈ ids ↔ c.state.ghost ownerId id = some window.value.minute) ∧
      ∑ id ∈ ids, cost c.state ownerId id = window.value.requests
  /-- An operation that was counted is never counted again, in this minute or another. -/
  once : ∀ c', Leads limiter.service .free c c' → ∀ ownerId id minute,
    c.state.ghost ownerId id = some minute →
      c'.state.ghost ownerId id = some minute ∧ cost c'.state ownerId id = cost c.state ownerId id
  /-- No step of a call for such an operation changes anything. -/
  unchanged : ∀ pid call m x c' minute,
    c.state.ghost call.ownerId (limiter.admissionId call.operationId) = some minute →
    c.procs pid = some (call, m) → limiter.service.step c (.resume pid x) = some c' →
      c'.state = c.state
  /-- A call that begins after its operation was counted succeeds, if it names the same cost, and
  only then. -/
  repeated : ∀ pid call minute,
    c.state.ghost call.ownerId (limiter.admissionId call.operationId) = some minute →
    c.procs pid = some (call, limiter.body call) →
    ∀ c' m, Leads limiter.service .free c c' → c'.procs pid = some (call, m) →
      (m = .ret () → cost c.state call.ownerId (limiter.admissionId call.operationId) =
        call.requests) ∧
      ∀ e, m = .raise e → cost c.state call.ownerId (limiter.admissionId call.operationId) ≠
        call.requests
  /-- A call that succeeded was counted. -/
  admitted : ∀ pid call, c.procs pid = some (call, .ret ()) →
    (∃ minute, c.state.ghost call.ownerId (limiter.admissionId call.operationId) = some minute) ∧
      cost c.state call.ownerId (limiter.admissionId call.operationId) = call.requests

/-- A receipt that was counted, and what it cost. -/
theorem Consistent.receipt {w : RateWorld} {ownerId id : String} {minute : ℕ}
    (h : limiter.Consistent w) (hcounted : w.ghost ownerId id = some minute) :
    ∃ receipt, w.records (.admission ownerId id) = some receipt ∧
      receipt.value = cost w ownerId id := by
  obtain ⟨receipt, hread⟩ := Option.isSome_iff_exists.mp
    ((h.counted ownerId id).mp (Option.isSome_iff_exists.mpr ⟨minute, hcounted⟩))
  refine ⟨receipt, hread, ?_⟩
  rw [cost, hread]
  rfl

theorem Consistent.cost_nonneg {w : RateWorld} {ownerId id : String} (h : limiter.Consistent w) :
    0 ≤ cost w ownerId id := by
  unfold cost
  cases hread : w.records (.admission ownerId id) with
  | none => exact le_rfl
  | some receipt =>
    have hvalid := h.valid ownerId id receipt hread
    simp only [isInvalid, Bool.or_eq_false_iff, decide_eq_false_iff_not, not_lt] at hvalid
    have hone : 1 ≤ receipt.value := hvalid.2
    exact Int.le_of_lt hone

theorem Consistent.bounded {w : RateWorld} (h : limiter.Consistent w) {ownerId : String}
    {minute : ℕ} {operations : Finset String} (hne : operations.Nonempty)
    (hcounted : ∀ operationId ∈ operations,
      w.ghost ownerId (limiter.admissionId operationId) = some minute) :
    ∑ operationId ∈ operations, cost w ownerId (limiter.admissionId operationId) ≤
      limiter.limit ownerId := by
  obtain ⟨ids, htally⟩ := h.tally ownerId minute
  have hsub : operations.image limiter.admissionId ⊆ ids := by
    intro id hid
    obtain ⟨operationId, hmem, rfl⟩ := Finset.mem_image.mp hid
    exact (htally.mem _).mpr (hcounted operationId hmem)
  have hnonempty : ids ≠ ∅ :=
    Finset.Nonempty.ne_empty ((Finset.image_nonempty.mpr hne).mono hsub)
  calc ∑ operationId ∈ operations, cost w ownerId (limiter.admissionId operationId)
      = ∑ id ∈ operations.image limiter.admissionId, cost w ownerId id :=
        (Finset.sum_image fun _ _ _ _ he ↦ limiter.admissionId_injective he).symm
    _ ≤ ∑ id ∈ ids, cost w ownerId id :=
        Finset.sum_le_sum_of_subset_of_nonneg hsub fun _ _ _ ↦ h.cost_nonneg
    _ ≤ limiter.limit ownerId := htally.bounded.resolve_left hnonempty

/-- The limit is enforced in every state of every run. -/
theorem rate_limit_enforced {c : RateConfig} (hc : Reachable limiter.service .free fresh c) :
    limiter.Enforced c := by
  have hV := @verified limiter
  have hsound := hV.reachable hc
  have hinv : limiter.Consistent c.state := hsound.inv
  refine ⟨fun ownerId minute operations hne hcounted ↦ hinv.bounded hne hcounted,
    fun ownerId window hwindow ↦ ?_, fun c' hlead ownerId id minute hcounted ↦ ?_,
    fun pid call m x c' minute hcounted hproc hstep ↦ ?_,
    fun pid call minute hcounted hproc c' m hlead hproc' ↦ ?_, fun pid call hproc ↦ ?_⟩
  · obtain ⟨ids, htally⟩ := hinv.tally ownerId window.value.minute
    exact ⟨ids, htally.mem, htally.exact window hwindow rfl⟩
  · have hsince : Since c.state c'.state := hV.future Since limiter.spec.since_refl
      limiter.spec.since_trans (fun _ _ _ _ hg ↦ hg.1) hsound hlead
    obtain ⟨receipt, hread, hcost⟩ := hinv.receipt hcounted
    refine ⟨hsince.counted _ _ _ hcounted, ?_⟩
    rw [← hcost, cost, hsince.receipts _ _ _ hread]
    rfl
  · -- An operation that has its receipt is not charged by any later step of its call.
    obtain ⟨call', e, k, answer, hproc', -, -⟩ := step_resume_eq_some hstep
    rw [hproc] at hproc'
    cases hproc'
    obtain ⟨-, -, hquiet⟩ := hV.resume hsound hproc (permits_free c _) hstep
    obtain ⟨receipt, hread, -⟩ := hinv.receipt hcounted
    exact hquiet (Option.isSome_iff_exists.mpr ⟨receipt, hread⟩)
  · -- A call that begins after the receipt was filed finds it, whatever the others do.
    obtain ⟨receipt, hread, hcost⟩ := hinv.receipt hcounted
    obtain ⟨m', hm', hsafe⟩ := hV.follow (fun _ _ _ _ _ _ _ _ _ h ↦ h)
      (fun _ _ _ _ _ _ _ _ _ h ↦ h) hsound hproc
      (meets_admit_again _ hinv ⟨receipt, hread, hcost⟩) hlead
    rw [hproc'] at hm'
    cases hm'
    refine ⟨?_, ?_⟩
    · rintro rfl
      exact hsafe
    · rintro e rfl
      exact hsafe
  · obtain ⟨receipt, hread, hvalue⟩ : call.Filed limiter c.state := hsound.safe pid call _ hproc
    have hsome := (hinv.counted call.ownerId (limiter.admissionId call.operationId)).mpr
      (Option.isSome_iff_exists.mpr ⟨receipt, hread⟩)
    refine ⟨Option.isSome_iff_exists.mp hsome, ?_⟩
    rw [cost, hread]
    exact hvalue

end

end OwnerRateLimiter

/-! ## A run -/

def sampleLimiter : OwnerRateLimiter where
  limit _ := 3
  admissionId := digest
  admissionId_injective := digest_injective

/-- Two admissions begin together. The second one to commit finds the counter changed, and there is
no room for it any more. -/
def sampleAdmissions : List (Event OwnerRateLimiter.Call (RecordChoice ℕ)) :=
  [.start 0 ⟨"owner", "a", 2⟩, .start 1 ⟨"owner", "b", 2⟩] ++
    [0, 1, 0, 1, 0, 1, 0, 1, 1, 1, 1, 1].map fun pid ↦ .resume pid ⟨60, .acknowledged⟩

/-- The admission that succeeded in that run was counted. -/
theorem sampleAdmissions_counted :
    ∃ c, sampleLimiter.service.run .free sampleAdmissions (.initial OwnerRateLimiter.fresh) =
        some c ∧
      ∃ minute, c.state.ghost "owner" (digest "a") = some minute := by
  have hrun : (sampleLimiter.service.run .free sampleAdmissions
      (.initial OwnerRateLimiter.fresh)).map (fun c ↦ c.outcome 0) =
        some (some (⟨"owner", "a", 2⟩, some (.ok ()))) := by decide
  obtain ⟨c, hc, hended⟩ := Option.map_eq_some_iff.mp hrun
  have henforced := OwnerRateLimiter.rate_limit_enforced (Service.leads_of_run hc)
  exact ⟨c, hc, (henforced.admitted 0 _ (Config.procs_of_outcome hended)).1⟩

end RatThings
