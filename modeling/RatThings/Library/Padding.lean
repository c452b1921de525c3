import Mathlib.Data.Nat.Notation
import Mathlib.Data.String.Basic

/-!
# Padded numerals

Numbers that are written with leading zeros, all of one length, are ordered like strings. This is
how a number is made part of a sort key.
-/

namespace Concurrent

/-- The last digits of a number, as many as the width says. -/
@[grind =]
def decimal : ℕ → ℕ → List Char
  | 0, _ => []
  | width + 1, n => decimal width (n / 10) ++ [Nat.digitChar (n % 10)]

@[simp] theorem length_decimal (width n : ℕ) : (decimal width n).length = width := by
  induction width generalizing n with
  | zero => rfl
  | succ width ih => simp [decimal, ih]

theorem decimal_zero (width : ℕ) : decimal width 0 = List.replicate width '0' := by
  induction width with
  | zero => rfl
  | succ width ih =>
    rw [decimal, Nat.zero_div, ih, List.replicate_succ']
    rfl

/-- A number that is short enough is padded to its last digits. -/
theorem leftpad_toDigits {width n : ℕ} (hn : n < 10 ^ width) (hwidth : 0 < width) :
    List.leftpad width '0' (Nat.toDigits 10 n) = decimal width n := by
  induction width generalizing n with
  | zero => omega
  | succ width ih =>
    by_cases hsmall : n < 10
    · rw [Nat.toDigits_of_lt_base hsmall, decimal, Nat.div_eq_of_lt hsmall, decimal_zero,
        Nat.mod_eq_of_lt hsmall]
      rfl
    · have hdiv : n / 10 < 10 ^ width := by
        rw [Nat.pow_succ] at hn
        omega
      have hpositive : 0 < width := by
        by_contra hzero
        obtain rfl : width = 0 := by omega
        omega
      rw [Nat.toDigits_of_base_le (by decide) (by omega), decimal, ← ih hdiv hpositive]
      simp [List.leftpad, List.append_assoc]

/-- Lists that begin alike in length are compared by their beginnings first. -/
theorem append_lt_append_iff {l l' s s' : List Char} (h : l.length = l'.length) :
    l ++ s < l' ++ s' ↔ l < l' ∨ l = l' ∧ s < s' := by
  induction l generalizing l' with
  | nil =>
    obtain rfl : l' = [] := List.length_eq_zero_iff.mp h.symm
    simp
  | cons a l ih =>
    cases l' with
    | nil => simp at h
    | cons b l' =>
      have hrest := ih (Nat.succ.inj h)
      rw [List.cons_append, List.cons_append, List.cons_lt_cons_iff, List.cons_lt_cons_iff, hrest]
      constructor
      · rintro (hab | ⟨rfl, hl | ⟨rfl, hs⟩⟩)
        · exact .inl (.inl hab)
        · exact .inl (.inr ⟨rfl, hl⟩)
        · exact .inr ⟨rfl, hs⟩
      · rintro ((hab | ⟨rfl, hl⟩) | ⟨heq, hs⟩)
        · exact .inl hab
        · exact .inr ⟨rfl, .inl hl⟩
        · obtain ⟨rfl, rfl⟩ := List.cons.inj heq
          exact .inr ⟨rfl, .inr ⟨rfl, hs⟩⟩

theorem digitChar_lt_digitChar : ∀ a < 10, ∀ b < 10, Nat.digitChar a < Nat.digitChar b ↔ a < b := by
  decide

theorem digitChar_inj : ∀ a < 10, ∀ b < 10, Nat.digitChar a = Nat.digitChar b → a = b := by
  decide

theorem decimal_inj {width m n : ℕ} (hm : m < 10 ^ width) (hn : n < 10 ^ width)
    (h : decimal width m = decimal width n) : m = n := by
  induction width generalizing m n with
  | zero => omega
  | succ width ih =>
    rw [Nat.pow_succ] at hm hn
    obtain ⟨hinit, hlast⟩ := List.append_inj' h rfl
    have hdiv : m / 10 = n / 10 := ih (by omega) (by omega) hinit
    have hmod : m % 10 = n % 10 :=
      digitChar_inj _ (by omega) _ (by omega) (List.cons.inj hlast).1
    omega

/-- Padded numerals are ordered like the numbers. -/
theorem decimal_lt_decimal {width m n : ℕ} (hm : m < 10 ^ width) (hn : n < 10 ^ width) :
    decimal width m < decimal width n ↔ m < n := by
  induction width generalizing m n with
  | zero =>
    obtain rfl : m = 0 := by omega
    obtain rfl : n = 0 := by omega
    simp [decimal]
  | succ width ih =>
    rw [Nat.pow_succ] at hm hn
    have hm' : m / 10 < 10 ^ width := by omega
    have hn' : n / 10 < 10 ^ width := by omega
    rw [decimal, decimal, append_lt_append_iff (by simp), ih hm' hn', List.cons_lt_cons_iff,
      digitChar_lt_digitChar _ (by omega) _ (by omega)]
    constructor
    · rintro (hlt | ⟨heq, hlt | ⟨-, hnil⟩⟩)
      · omega
      · have hdiv : m / 10 = n / 10 := decimal_inj hm' hn' heq
        omega
      · cases hnil
    · intro hlt
      by_cases hdiv : m / 10 < n / 10
      · exact .inl hdiv
      · have heq : m / 10 = n / 10 := by omega
        exact .inr ⟨by rw [heq], .inl (by omega)⟩

end Concurrent
