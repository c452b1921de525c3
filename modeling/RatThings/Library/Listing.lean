import Mathlib.Data.List.Sort
import Mathlib.Data.Nat.Notation

/-!
# Listings

A listing shows a collection in the order of a key, in either direction, one page at a time. Two
systems that keep the same collection under different keys show the same listing as long as their
keys are ordered alike (`map_sortBy`), and it does not matter in how many portions a page arrives
(`fetch_eq`).
-/

namespace Concurrent

variable {α β K L : Type} [LinearOrder K] [LinearOrder L]

/-- The order of a listing. -/
def Follows (ascending : Bool) (a b : K) : Prop := if ascending then a ≤ b else b ≤ a

instance (ascending : Bool) (a b : K) : Decidable (Follows ascending a b) :=
  inferInstanceAs (Decidable (if ascending then a ≤ b else b ≤ a))

/-- What comes strictly later. -/
def Beyond (ascending : Bool) (a b : K) : Prop := if ascending then a < b else b < a

instance (ascending : Bool) (a b : K) : Decidable (Beyond ascending a b) :=
  inferInstanceAs (Decidable (if ascending then a < b else b < a))

def sortBy (ascending : Bool) (key : α → K) (l : List α) : List α :=
  l.insertionSort fun a b ↦ Follows ascending (key a) (key b)

theorem mem_sortBy {ascending : Bool} {key : α → K} {l : List α} {a : α} :
    a ∈ sortBy ascending key l ↔ a ∈ l := List.mem_insertionSort _

theorem pairwise_sortBy (ascending : Bool) (key : α → K) (l : List α) :
    (sortBy ascending key l).Pairwise fun a b ↦ Follows ascending (key a) (key b) := by
  have htotal : Std.Total fun a b : α ↦ Follows ascending (key a) (key b) := by
    refine ⟨fun a b ↦ ?_⟩
    cases ascending
    · exact le_total (key b) (key a)
    · exact le_total (key a) (key b)
  have htrans : IsTrans α fun a b ↦ Follows ascending (key a) (key b) := by
    refine ⟨fun a b c hab hbc ↦ ?_⟩
    cases ascending
    · exact le_trans hbc hab
    · exact le_trans hab hbc
  exact List.pairwise_insertionSort _ l

/-- Keys that differ make the order strict. -/
theorem pairwise_beyond_sortBy {ascending : Bool} {key : α → K} {l : List α}
    (hl : (l.map key).Nodup) :
    (sortBy ascending key l).Pairwise fun a b ↦ Beyond ascending (key a) (key b) := by
  have hnodup : ((sortBy ascending key l).map key).Nodup :=
    ((List.perm_insertionSort _ l).map key).nodup_iff.mpr hl
  refine ((pairwise_sortBy ascending key l).and (List.pairwise_map.mp hnodup)).imp fun h ↦ ?_
  obtain ⟨hfollows, hne⟩ := h
  cases ascending
  · exact lt_of_le_of_ne hfollows (Ne.symm hne)
  · exact lt_of_le_of_ne hfollows hne

/-- Two collections with the same members, in orders that agree, are listed alike. -/
theorem map_sortBy {ascending : Bool} {key : α → K} {key' : β → L} {f : α → β} {l : List α}
    {m : List β} (hl : (l.map key).Nodup) (hm : (m.map key').Nodup)
    (hmem : ∀ b, b ∈ m ↔ ∃ a ∈ l, f a = b)
    (horder : ∀ a ∈ l, ∀ a' ∈ l, key a < key a' ↔ key' (f a) < key' (f a')) :
    (sortBy ascending key l).map f = sortBy ascending key' m := by
  have hirrefl : Std.Irrefl fun b b' : β ↦ Beyond ascending (key' b) (key' b') := by
    refine ⟨fun b hb ↦ ?_⟩
    cases ascending <;> exact lt_irrefl _ hb
  have hasymm : Std.Antisymm fun b b' : β ↦ Beyond ascending (key' b) (key' b') := by
    refine ⟨fun b b' hb hb' ↦ ?_⟩
    cases ascending <;> exact absurd hb (lt_asymm hb')
  refine List.Pairwise.eq_of_mem_iff (List.pairwise_map.mpr ?_) (pairwise_beyond_sortBy hm)
    fun b ↦ ?_
  · refine (pairwise_beyond_sortBy hl).imp_of_mem fun {a a'} ha ha' h ↦ ?_
    have hl : a ∈ l := mem_sortBy.mp ha
    have hl' : a' ∈ l := mem_sortBy.mp ha'
    cases ascending
    · exact (horder a' hl' a hl).mp h
    · exact (horder a hl a' hl').mp h
  · rw [mem_sortBy, hmem, List.mem_map]
    exact exists_congr fun a ↦ and_congr_left fun _ ↦ mem_sortBy

/-- What is listed behind an item is the listing of what lies beyond it. -/
theorem sortBy_filter_beyond {ascending : Bool} {key : α → K} {l first rest : List α} {a : α}
    (hl : (l.map key).Nodup) (h : sortBy ascending key l = first ++ a :: rest) :
    sortBy ascending key (l.filter fun b ↦ Beyond ascending (key a) (key b)) = rest := by
  have hirrefl : Std.Irrefl fun b b' : α ↦ Beyond ascending (key b) (key b') := by
    refine ⟨fun b hb ↦ ?_⟩
    cases ascending <;> exact lt_irrefl _ hb
  have hasymm : Std.Antisymm fun b b' : α ↦ Beyond ascending (key b) (key b') := by
    refine ⟨fun b b' hb hb' ↦ ?_⟩
    cases ascending <;> exact absurd hb (lt_asymm hb')
  have hsorted : (sortBy ascending key l).Pairwise fun a b ↦ Beyond ascending (key a) (key b) :=
    pairwise_beyond_sortBy hl
  rw [h, List.pairwise_append, List.pairwise_cons] at hsorted
  obtain ⟨-, ⟨hbehind, hrest⟩, hfirst⟩ := hsorted
  have hfilter : ((l.filter fun b ↦ Beyond ascending (key a) (key b)).map key).Nodup :=
    hl.sublist (List.filter_sublist.map key)
  refine List.Pairwise.eq_of_mem_iff (pairwise_beyond_sortBy hfilter) hrest fun b ↦ ?_
  have hmem : b ∈ l ↔ b ∈ first ++ a :: rest := by rw [← h, mem_sortBy]
  rw [mem_sortBy, List.mem_filter, hmem, List.mem_append, List.mem_cons, decide_eq_true_eq]
  constructor
  · rintro ⟨hb | rfl | hb, hbeyond⟩
    · exact absurd hbeyond (hasymm.antisymm _ _ (hfirst b hb a List.mem_cons_self) hbeyond ▸
        hirrefl.irrefl a)
    · exact absurd hbeyond (hirrefl.irrefl _)
    · exact hb
  · intro hb
    exact ⟨.inr (.inr hb), hbehind b hb⟩

/-! ## Pages -/

/-- Collect what is wanted from a source that delivers a few items at a time: as many as `fit` says
at this point, but one at least. -/
def fetch (fit : ℕ → ℕ) (wanted : ℕ) : ℕ → List α → List α → List α
  | 0, data, _ => data
  | fuel + 1, data, rest =>
    let size := min (wanted - data.length) (max 1 (fit data.length))
    let data' := data ++ rest.take size
    if rest.drop size = [] ∨ wanted ≤ data'.length then data'
    else fetch fit wanted fuel data' (rest.drop size)

theorem fetch_append (fit : ℕ → ℕ) {wanted fuel : ℕ} {data rest : List α}
    (hfuel : rest.length < fuel) (hdata : data.length < wanted) :
    fetch fit wanted fuel data rest = data ++ rest.take (wanted - data.length) := by
  induction fuel generalizing data rest with
  | zero => omega
  | succ fuel ih =>
    rw [fetch]
    set size := min (wanted - data.length) (max 1 (fit data.length)) with hsize
    have hpositive : 0 < size := by omega
    have hle : size ≤ wanted - data.length := by omega
    split
    · next hdone =>
      congr 1
      rcases hdone with hdone | hdone
      · have hlength : rest.length ≤ size := List.drop_eq_nil_iff.mp hdone
        rw [List.take_of_length_le hlength, List.take_of_length_le (by omega)]
      · have hfull : wanted - data.length ≤ size := by
          rw [List.length_append, List.length_take] at hdone
          omega
        rw [le_antisymm hle hfull]
    · next hmore =>
      have hlength : size < rest.length := by
        by_contra hno
        exact hmore (.inl (List.drop_eq_nil_iff.mpr (by omega)))
      have hdata' : (data ++ rest.take size).length = data.length + size := by
        rw [List.length_append, List.length_take]
        omega
      rw [ih (by rw [List.length_drop]; omega) (by omega), List.append_assoc]
      congr 1
      rw [hdata', show wanted - data.length = size + (wanted - (data.length + size)) by omega,
        List.take_add]

/-- It does not matter in which portions the items arrive. -/
theorem fetch_eq (fit : ℕ → ℕ) {wanted : ℕ} (hwanted : 0 < wanted) (rest : List α) :
    fetch fit wanted (rest.length + 1) [] rest = rest.take wanted := by
  rw [fetch_append fit (Nat.lt_succ_self _) hwanted]
  rfl

end Concurrent
