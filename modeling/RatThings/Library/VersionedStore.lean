import Mathlib.Data.Nat.Notation
import Mathlib.Logic.Function.Basic
import Mathlib.Order.Nat

/-!
# Records under compare-and-swap

A record carries a revision. A writer names the revision it read, and its write takes effect only
while that revision is current; the write then raises it by one. A missing record has revision `0`,
so naming `0` creates.

What makes optimistic retries sound is one relation, `Slot.Precedes`: a snapshot precedes the
record it was read from for ever after, and a compare-and-swap that names the snapshot's revision
and succeeds has found the snapshot itself (`Slot.Precedes.eq_of_put`).

## Transactions

A transaction is a list of writes, each with the revision of its own record. Every write takes
effect or none does. A deletion sets the revision of its record back to `0`, so `Slot.Precedes` is
kept only by transactions that delete nothing.

## Acknowledgements

A commit is applied or refused, and independently its acknowledgement may be lost. `Fate` is that
choice; `Reply` is what the caller sees. A refusal that is reported is final: nothing was written.
-/

namespace Concurrent

variable {α : Type}

/-- A stored value and its revision. -/
structure Versioned (α : Type) where
  revision : ℕ
  value : α
deriving DecidableEq, Repr

/-- A record that may be missing. -/
abbrev Slot (α : Type) := Option (Versioned α)

namespace Slot

/-- The revision a writer has to name; a missing record has revision `0`. -/
def revision : Slot α → ℕ
  | none => 0
  | some v => v.revision

@[simp] theorem revision_none : revision (none : Slot α) = 0 := rfl

@[simp] theorem revision_some (v : Versioned α) : revision (some v) = v.revision := rfl

/-- The conditional write: refused unless the named revision is current. -/
def put (slot : Slot α) (expected : ℕ) (value : α) : Option (Slot α) :=
  if slot.revision = expected then some (some ⟨expected + 1, value⟩) else none

theorem put_eq_some {slot slot' : Slot α} {expected : ℕ} {value : α} :
    slot.put expected value = some slot' ↔
      slot.revision = expected ∧ slot' = some ⟨expected + 1, value⟩ := by
  unfold put
  split
  · next h => simp [h, eq_comm]
  · next h => simp [h]

/-- `new` is `old` or a later state of the same record. -/
def Precedes (old new : Slot α) : Prop :=
  old.revision ≤ new.revision ∧ (old.revision = new.revision → old = new)

theorem Precedes.refl (slot : Slot α) : slot.Precedes slot := ⟨le_rfl, fun _ ↦ rfl⟩

theorem Precedes.trans {a b c : Slot α} (h : a.Precedes b) (h' : b.Precedes c) :
    a.Precedes c := by
  refine ⟨h.1.trans h'.1, fun he ↦ ?_⟩
  have hab : a = b := h.2 (le_antisymm h.1 (he ▸ h'.1))
  exact hab.trans (h'.2 (hab ▸ he))

theorem precedes_of_put {slot slot' : Slot α} {expected : ℕ} {value : α}
    (h : slot.put expected value = some slot') : slot.Precedes slot' := by
  obtain ⟨rfl, rfl⟩ := put_eq_some.mp h
  exact ⟨Nat.le_succ _, fun he ↦ absurd he (Nat.ne_of_lt (Nat.lt_succ_self _))⟩

/-- A compare-and-swap on the revision of a snapshot finds the snapshot. -/
theorem Precedes.eq_of_put {snapshot slot slot' : Slot α} {value : α}
    (hp : snapshot.Precedes slot) (h : slot.put snapshot.revision value = some slot') :
    slot = snapshot ∧ slot' = some ⟨snapshot.revision + 1, value⟩ := by
  obtain ⟨hr, rfl⟩ := put_eq_some.mp h
  exact ⟨(hp.2 hr.symm).symm, rfl⟩

end Slot

/-! ## Several records -/

/-- Records by key. The type of a record depends on its key. -/
abbrev Store (Key : Type) (Val : Key → Type) := (k : Key) → Slot (Val k)

/-- One write of a transaction. A value of `none` deletes the record. -/
structure Write (Key : Type) (Val : Key → Type) where
  key : Key
  expected : ℕ
  value : Option (Val key)

namespace Store

variable {Key : Type} [DecidableEq Key] {Val : Key → Type}

/-- The revision the write names is current. -/
def Admits (st : Store Key Val) (w : Write Key Val) : Prop :=
  (st w.key).revision = w.expected

instance (st : Store Key Val) (w : Write Key Val) : Decidable (st.Admits w) :=
  inferInstanceAs (Decidable (_ = _))

/-- Carry the write out. -/
def apply (st : Store Key Val) (w : Write Key Val) : Store Key Val :=
  Function.update st w.key (w.value.map fun v ↦ ⟨w.expected + 1, v⟩)

/-- A transaction: every write takes effect, or none does. -/
def commit (st : Store Key Val) (ws : List (Write Key Val)) : Option (Store Key Val) :=
  if ∀ w ∈ ws, st.Admits w then some (ws.foldl apply st) else none

theorem commit_eq_some {st st' : Store Key Val} {ws : List (Write Key Val)} :
    st.commit ws = some st' ↔ (∀ w ∈ ws, st.Admits w) ∧ ws.foldl apply st = st' := by
  unfold commit
  split
  · next h => exact ⟨fun he ↦ ⟨h, Option.some.inj he⟩, fun he ↦ congrArg some he.2⟩
  · next h => exact ⟨(fun he ↦ nomatch he), fun he ↦ absurd he.1 h⟩

@[simp] theorem apply_self (st : Store Key Val) (w : Write Key Val) :
    st.apply w w.key = w.value.map fun v ↦ ⟨w.expected + 1, v⟩ := Function.update_self ..

theorem apply_of_ne (st : Store Key Val) {w : Write Key Val} {k : Key} (h : k ≠ w.key) :
    st.apply w k = st k := Function.update_of_ne h ..

theorem commit_singleton {st st' : Store Key Val} {w : Write Key Val} :
    st.commit [w] = some st' ↔ st.Admits w ∧ st' = st.apply w := by
  rw [commit_eq_some]
  simp [eq_comm]

/-- A transaction that takes effect has found the records it names as they were read. -/
theorem commit_of_seen {st st' : Store Key Val} {ws : List (Write Key Val)} {w : Write Key Val}
    {slot : Slot (Val w.key)} (h : st.commit ws = some st') (hw : w ∈ ws)
    (hexpected : w.expected = slot.revision) (hseen : slot.Precedes (st w.key)) :
    st w.key = slot := by
  have hadmits : (st w.key).revision = w.expected := (commit_eq_some.mp h).1 w hw
  exact (hseen.2 (hexpected.symm.trans hadmits.symm)).symm

/-- A record is left alone by a transaction, or set by one of its writes. -/
theorem commit_cases {st st' : Store Key Val} {ws : List (Write Key Val)}
    (h : st.commit ws = some st') (k : Key) :
    st' k = st k ∨ ∃ w ∈ ws, ∃ hk : w.key = k,
      st' k = hk ▸ w.value.map fun v ↦ ⟨w.expected + 1, v⟩ := by
  obtain ⟨-, rfl⟩ := commit_eq_some.mp h
  clear h
  induction ws generalizing st with
  | nil => exact .inl rfl
  | cons w ws ih =>
    rw [List.foldl_cons]
    have hrest := @ih (st.apply w)
    rcases hrest with hsame | ⟨w', hw', hset⟩
    · by_cases hk : w.key = k
      · subst hk
        exact .inr ⟨w, List.mem_cons_self, rfl, hsame.trans (apply_self st w)⟩
      · exact .inl (hsame.trans (apply_of_ne st (Ne.symm hk)))
    · exact .inr ⟨w', List.mem_cons_of_mem _ hw', hset⟩

/-- A transaction that deletes nothing moves every record forward. -/
theorem precedes_of_commit {st st' : Store Key Val} {ws : List (Write Key Val)}
    (h : st.commit ws = some st') (hkeep : ∀ w ∈ ws, w.value.isSome) (k : Key) :
    (st k).Precedes (st' k) := by
  rcases commit_cases h k with hsame | ⟨w, hw, rfl, hset⟩
  · rw [hsame]
    exact .refl _
  · obtain ⟨v, hv⟩ := Option.isSome_iff_exists.mp (hkeep w hw)
    have hadmits : (st w.key).revision = w.expected := (commit_eq_some.mp h).1 w hw
    have hput : (st w.key).put w.expected v = some (some ⟨w.expected + 1, v⟩) :=
      Slot.put_eq_some.mpr ⟨hadmits, rfl⟩
    have hnew : st' w.key = some ⟨w.expected + 1, v⟩ := by
      rw [hset, hv]
      rfl
    rw [hnew]
    exact Slot.precedes_of_put hput

/-- A record that is there after a transaction was moved forward by it. -/
theorem precedes_of_isSome {st st' : Store Key Val} {ws : List (Write Key Val)} {k : Key}
    (h : st.commit ws = some st') (hk : (st' k).isSome = true) : (st k).Precedes (st' k) := by
  rcases commit_cases h k with hsame | ⟨w, hw, rfl, hset⟩
  · rw [hsame]
    exact .refl _
  · have hadmits : (st w.key).revision = w.expected := (commit_eq_some.mp h).1 w hw
    obtain ⟨v, hv⟩ := Option.isSome_iff_exists.mp hk
    obtain ⟨value, -, hvalue⟩ := Option.map_eq_some_iff.mp (hset.symm.trans hv)
    have hput : (st w.key).put w.expected value = some (some v) :=
      Slot.put_eq_some.mpr ⟨hadmits, congrArg some hvalue.symm⟩
    rw [hv]
    exact Slot.precedes_of_put hput

/-- Revisions count from one, so a write that names `0` creates. -/
def Numbered (st : Store Key Val) : Prop := ∀ k v, st k = some v → 0 < v.revision

theorem numbered_of_commit {st st' : Store Key Val} {ws : List (Write Key Val)}
    (hst : st.Numbered) (h : st.commit ws = some st') : st'.Numbered := by
  intro k v hv
  rcases commit_cases h k with hsame | ⟨w, -, rfl, hset⟩
  · exact hst k v (hsame.symm.trans hv)
  · rw [hset] at hv
    obtain ⟨value, -, hvalue⟩ := Option.map_eq_some_iff.mp hv
    exact hvalue ▸ Nat.succ_pos _

/-- A creation that takes effect has found nothing. -/
theorem eq_none_of_commit {st st' : Store Key Val} {ws : List (Write Key Val)}
    {w : Write Key Val} (hst : st.Numbered) (h : st.commit ws = some st') (hw : w ∈ ws)
    (hexpected : w.expected = 0) : st w.key = none := by
  have hadmits : (st w.key).revision = w.expected := (commit_eq_some.mp h).1 w hw
  cases hrecord : st w.key with
  | none => rfl
  | some v =>
    have hpositive : 0 < v.revision := hst w.key v hrecord
    rw [hrecord, Slot.revision_some, hexpected] at hadmits
    omega

theorem foldl_apply_of_ne {st : Store Key Val} {ws : List (Write Key Val)} {k : Key}
    (hk : ∀ w ∈ ws, k ≠ w.key) : ws.foldl apply st k = st k := by
  induction ws generalizing st with
  | nil => rfl
  | cons w ws ih =>
    rw [List.foldl_cons, ih fun w' hw' ↦ hk w' (List.mem_cons_of_mem _ hw')]
    exact apply_of_ne st (hk w List.mem_cons_self)

/-- A transaction leaves alone every record it does not name. -/
theorem commit_frame {st st' : Store Key Val} {ws : List (Write Key Val)} {k : Key}
    (h : st.commit ws = some st') (hk : ∀ w ∈ ws, k ≠ w.key) : st' k = st k := by
  obtain ⟨-, rfl⟩ := commit_eq_some.mp h
  exact foldl_apply_of_ne hk

/-- A transaction sets the record that only one of its writes names. -/
theorem commit_written {st st' : Store Key Val} {ws : List (Write Key Val)} {w : Write Key Val}
    (h : st.commit ws = some st') (hw : w ∈ ws)
    (honly : ∀ w' ∈ ws, w'.key = w.key → w' = w) :
    st' w.key = w.value.map fun v ↦ ⟨w.expected + 1, v⟩ := by
  obtain ⟨-, rfl⟩ := commit_eq_some.mp h
  clear h
  induction ws generalizing st with
  | nil => cases hw
  | cons a ws ih =>
    rw [List.foldl_cons]
    by_cases hrest : w ∈ ws
    · exact ih hrest fun w' hw' ↦ honly w' (List.mem_cons_of_mem _ hw')
    · obtain rfl : w = a := (List.mem_cons.mp hw).resolve_right hrest
      have hother : ∀ w' ∈ ws, w.key ≠ w'.key := by
        intro w' hw' hkey
        have hsame : w' = w := honly w' (List.mem_cons_of_mem _ hw') hkey.symm
        exact hrest (hsame ▸ hw')
      rw [foldl_apply_of_ne hother, apply_self]

end Store

/-! ## What the caller learns -/

/-- What becomes of one commit: applied if it can be and acknowledged, applied if it can be with
the acknowledgement lost, refused, or lost on the way. -/
inductive Fate : Type
  | acknowledged
  | unacknowledged
  | refused
  | dropped
deriving DecidableEq, Repr

/-- What the caller of a commit sees. -/
inductive Reply : Type
  | done
  | conflict
  | unknown
deriving DecidableEq, Repr

/-- The state after a commit that would lead to `next` (`none` when its condition fails). -/
def Fate.settle {σ : Type} (fate : Fate) (next : Option σ) (s : σ) : Reply × σ :=
  match fate, next with
  | .acknowledged, some t => (.done, t)
  | .acknowledged, none => (.conflict, s)
  | .unacknowledged, some t => (.unknown, t)
  | .unacknowledged, none => (.unknown, s)
  | .refused, _ => (.conflict, s)
  | .dropped, _ => (.unknown, s)

/-- A commit either took effect, and then it is not reported as refused, or changed nothing, and
then it is not reported as done. -/
theorem Fate.settle_cases {σ : Type} {fate : Fate} {next : Option σ} {s t : σ} {r : Reply}
    (h : fate.settle next s = (r, t)) :
    (next = some t ∧ r ≠ .conflict) ∨ (t = s ∧ r ≠ .done) := by
  cases fate <;> cases next <;> cases h <;> simp

/-- A commit that took effect is reported as done, unless its acknowledgement is lost. -/
theorem Fate.settle_outcome {σ : Type} {fate : Fate} {next : Option σ} {s t : σ} {r : Reply}
    (h : fate.settle next s = (r, t)) :
    (next = some t ∧ (r = .done ∨ fate = .unacknowledged)) ∨ (t = s ∧ r ≠ .done) := by
  cases fate <;> cases next <;> cases h <;> simp

/-- A commit that changed the state was applied. -/
theorem Fate.settle_applied {σ : Type} {fate : Fate} {next : Option σ} {s t : σ} {r : Reply}
    (h : fate.settle next s = (r, t)) :
    (next = some t ∧ (fate = .acknowledged ∨ fate = .unacknowledged)) ∨ (t = s ∧ r ≠ .done) := by
  cases fate <;> cases next <;> cases h <;> simp

theorem Fate.acknowledged_of_done {σ : Type} {fate : Fate} {next : Option σ} {s t : σ}
    (h : fate.settle next s = (.done, t)) : fate = .acknowledged := by
  cases fate with
  | acknowledged => rfl
  | unacknowledged => cases next <;> cases h
  | refused => cases h
  | dropped => cases h

end Concurrent
