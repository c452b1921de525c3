import Mathlib.Data.List.Forall2

/-!
# Matching in order

Elements are looked up one after the other in a list, each behind the place of the one before.
Taking the first match every time loses nothing: if any choice of places in order works, this one
does.
-/

namespace Concurrent

variable {α β : Type}

/-- The first place from `least` on with the property. -/
def findIndexFrom (p : α → Bool) (least : ℕ) (l : List α) : Option ℕ :=
  l.zipIdx.findIdx? fun entry ↦ least ≤ entry.2 && p entry.1

theorem findIdx?_zipIdx (p : α → Bool) (least k : ℕ) (l : List α) :
    ((l.zipIdx k).findIdx? fun entry ↦ least ≤ entry.2 && p entry.1) =
      ((l.drop (least - k)).findIdx? p).map (· + (least - k)) := by
  induction l generalizing k with
  | nil => simp
  | cons a l ih =>
    rw [List.zipIdx_cons, List.findIdx?_cons]
    by_cases hle : least ≤ k
    · have hzero : least - k = 0 := Nat.sub_eq_zero_of_le hle
      have hzero' : least - (k + 1) = 0 := by omega
      simp [hle, hzero, ih, hzero', List.findIdx?_cons]
    · obtain ⟨n, hn⟩ : ∃ n, least - k = n + 1 := ⟨least - k - 1, by omega⟩
      have hn' : least - (k + 1) = n := by omega
      simp [hle, hn, ih, hn', Function.comp_def, Nat.add_assoc]

/-- Looking from a place on is looking behind what stands before it. -/
theorem findIndexFrom_eq (p : α → Bool) (least : ℕ) (l : List α) :
    findIndexFrom p least l = ((l.drop least).findIdx? p).map (· + least) :=
  findIdx?_zipIdx p least 0 l

/-- The first match is as good as any other. -/
theorem sublistForall₂_cons_iff {same : β → α → Bool} {b : β} {needed : List β} {l : List α} :
    List.SublistForall₂ (fun b a ↦ same b a = true) (b :: needed) l ↔
      ∃ i, l.findIdx? (same b) = some i ∧
        List.SublistForall₂ (fun b a ↦ same b a = true) needed (l.drop (i + 1)) := by
  induction l with
  | nil =>
    constructor
    · rintro ⟨⟩
    · rintro ⟨i, hi, -⟩
      cases hi
  | cons a l ih =>
    rw [List.findIdx?_cons]
    by_cases hsame : same b a = true
    · rw [if_pos hsame]
      constructor
      · intro h
        refine ⟨0, rfl, ?_⟩
        cases h with
        | cons _ h => exact h
        | cons_right h =>
          -- A later match leaves less behind it.
          obtain ⟨i, -, hi⟩ := ih.mp h
          obtain ⟨l', hforall, hsub⟩ := List.sublistForall₂_iff.mp hi
          exact List.sublistForall₂_iff.mpr ⟨l', hforall, hsub.trans (List.drop_sublist _ l)⟩
      · rintro ⟨i, hi, h⟩
        obtain rfl := Option.some.inj hi
        exact .cons hsame h
    · rw [if_neg hsame]
      constructor
      · intro h
        cases h with
        | cons hsame' => exact absurd hsame' hsame
        | cons_right h =>
          obtain ⟨i, hi, hrest⟩ := ih.mp h
          exact ⟨i + 1, by simp [hi], hrest⟩
      · rintro ⟨i, hi, h⟩
        obtain ⟨j, hj, rfl⟩ := Option.map_eq_some_iff.mp hi
        exact .cons_right (ih.mpr ⟨j, hj, h⟩)

end Concurrent
