import Mathlib.Algebra.Order.Field.Power
import Mathlib.Data.Int.Log
import Mathlib.Data.Rat.Floor
import Mathlib.Tactic.Linarith
import Mathlib.Tactic.Positivity

/-!
# Finite numbers of double precision

A finite number is `± m · 2 ^ e` with a significand `m` of up to 53 bits and an exponent `e` in the
range of the format. Only the smallest exponent has significands below `2 ^ 52`, so a number is
written in one way, and zero has two signs.

A number is read from a decimal text by rounding the decimal to the nearest number, and to the even
significand of two that are equally near. It is printed with as few digits as still round to it, and
with the closest of the decimals that have so few.
-/

namespace Concurrent

/-- A finite number of double precision. -/
structure Double where
  negative : Bool
  significand : ℕ
  exponent : ℤ
  significand_lt : significand < 2 ^ 53
  exponent_le : exponent ≤ 971
  canonical : 2 ^ 52 ≤ significand ∧ -1074 ≤ exponent ∨ exponent = -1074
deriving DecidableEq, Repr

namespace Double

def magnitude (x : Double) : ℚ := x.significand * 2 ^ x.exponent

/-- The number that `x` stands for. Both zeros stand for 0. -/
def value (x : Double) : ℚ := if x.negative then -x.magnitude else x.magnitude

def zero : Double := ⟨false, 0, -1074, by decide, by decide, .inr rfl⟩

/-- The number itself, with 0 in place of −0. -/
def unsignZero (x : Double) : Double := if x.significand = 0 then zero else x

/-! ## Rounding -/

/-- The whole number nearest to `q`, the even one of two. -/
def roundEven (q : ℚ) : ℕ :=
  let n := ⌊q⌋₊
  if q - n < 1 / 2 then n
  else if 1 / 2 < q - n then n + 1
  else if n % 2 = 0 then n
  else n + 1

/-- The exponent at which a number near `q` has its significand. -/
def scale (q : ℚ) : ℤ := if q = 0 then -1074 else max (-1074) (Int.log 2 q - 52)

/-- The number of the format nearest to `q`, unless `q` is too large. -/
def nearest (negative : Bool) (q : ℚ) : Option Double :=
  let e := scale q
  let m := roundEven (q / 2 ^ e)
  if h : m < 2 ^ 53 ∧ e ≤ 971 ∧ (2 ^ 52 ≤ m ∧ -1074 ≤ e ∨ e = -1074) then
    some ⟨negative, m, e, h.1, h.2.1, h.2.2⟩
  -- the significand was rounded up to the next power of two
  else if h : -1074 ≤ e + 1 ∧ e + 1 ≤ 971 then
    some ⟨negative, 2 ^ 52, e + 1, by decide, h.2, .inl ⟨le_refl _, h.1⟩⟩
  else none

theorem roundEven_natCast (n : ℕ) : roundEven n = n := by
  simp [roundEven]

/-- A whole number times a power of two has its logarithm between these powers. -/
theorem log_magnitude {m : ℕ} (hm : m ≠ 0) (e : ℤ) :
    Int.log 2 ((m : ℚ) * 2 ^ e) = Nat.log 2 m + e := by
  have hpos : (0 : ℚ) < (m : ℚ) * 2 ^ e := by positivity
  have htwo : (0 : ℚ) < 2 ^ e := by positivity
  apply le_antisymm
  · rw [← Int.lt_add_one_iff, ← Int.lt_zpow_iff_log_lt (by decide) hpos]
    have hlt : (m : ℚ) < 2 ^ (Nat.log 2 m + 1) := by
      exact_mod_cast Nat.lt_pow_succ_log_self (by decide) m
    calc (m : ℚ) * 2 ^ e < 2 ^ (Nat.log 2 m + 1) * 2 ^ e := by gcongr
      _ = ((2 : ℕ) : ℚ) ^ ((Nat.log 2 m : ℤ) + e + 1) := by
        rw [← zpow_natCast, ← zpow_add₀ (by norm_num)]
        congr 1
        push_cast
        ring
  · rw [← Int.zpow_le_iff_le_log (by decide) hpos]
    have hle : (2 : ℚ) ^ Nat.log 2 m ≤ m := by
      exact_mod_cast Nat.pow_log_le_self 2 hm
    calc ((2 : ℕ) : ℚ) ^ ((Nat.log 2 m : ℤ) + e) = 2 ^ Nat.log 2 m * 2 ^ e := by
          rw [← zpow_natCast, ← zpow_add₀ (by norm_num)]
          norm_num
      _ ≤ m * 2 ^ e := by gcongr

theorem scale_magnitude (x : Double) (h : x.significand ≠ 0) : scale x.magnitude = x.exponent := by
  have hpos : x.magnitude ≠ 0 := by
    have : (0 : ℚ) < x.magnitude := by
      rw [magnitude]
      positivity
    exact this.ne'
  rw [scale, if_neg hpos, magnitude, log_magnitude h]
  have hlt : Nat.log 2 x.significand < 53 := Nat.log_lt_of_lt_pow h x.significand_lt
  rcases x.canonical with ⟨hbits, hlow⟩ | hsmall
  · have hle : 52 ≤ Nat.log 2 x.significand := Nat.le_log_of_pow_le (by decide) hbits
    omega
  · omega

/-- A number of the format is the one nearest to itself. -/
theorem nearest_magnitude (x : Double) : nearest x.negative x.magnitude = some x := by
  have hround : roundEven (x.magnitude / 2 ^ x.exponent) = x.significand := by
    have htwo : (2 : ℚ) ^ x.exponent ≠ 0 := by positivity
    rw [magnitude, mul_div_assoc, div_self htwo, mul_one, roundEven_natCast]
  have hscale : scale x.magnitude = x.exponent := by
    by_cases hzero : x.significand = 0
    · have hexponent : x.exponent = -1074 := by
        rcases x.canonical with ⟨hbits, -⟩ | hsmall
        · omega
        · exact hsmall
      rw [scale, magnitude, hzero, hexponent]
      simp
    · exact scale_magnitude x hzero
  have hfits := And.intro x.significand_lt (And.intro x.exponent_le x.canonical)
  simp only [nearest, hscale, hround]
  rw [dif_pos hfits]

theorem magnitude_eq_zero {x : Double} : x.magnitude = 0 ↔ x.significand = 0 := by
  have htwo : (2 : ℚ) ^ x.exponent ≠ 0 := by positivity
  rw [magnitude, mul_eq_zero, Nat.cast_eq_zero]
  exact or_iff_left htwo

theorem value_eq_zero {x : Double} : x.value = 0 ↔ x.significand = 0 := by
  rw [value, ← magnitude_eq_zero]
  split
  · exact neg_eq_zero
  · exact Iff.rfl

theorem magnitude_nonneg (x : Double) : 0 ≤ x.magnitude := by
  rw [magnitude]
  positivity

theorem eq_of_magnitude {x y : Double} (hsign : x.negative = y.negative)
    (h : x.magnitude = y.magnitude) : x = y := by
  have hx := nearest_magnitude x
  rw [hsign, h, nearest_magnitude] at hx
  exact (Option.some.inj hx).symm

@[simp] theorem value_unsignZero (x : Double) : x.unsignZero.value = x.value := by
  rw [unsignZero]
  split
  · rename_i hzero
    rw [value, value, magnitude_eq_zero.mpr hzero, magnitude_eq_zero.mpr rfl]
    simp
  · rfl

/-- Numbers that stand for the same are the same, up to the sign of zero. -/
theorem value_eq_iff {x y : Double} : x.value = y.value ↔ x.unsignZero = y.unsignZero := by
  constructor
  · intro h
    have hzero : x.significand = 0 ↔ y.significand = 0 := by
      rw [← value_eq_zero, ← value_eq_zero, h]
    by_cases hx : x.significand = 0
    · rw [unsignZero, unsignZero, if_pos hx, if_pos (hzero.mp hx)]
    rw [unsignZero, unsignZero, if_neg hx, if_neg fun hy ↦ hx (hzero.mpr hy)]
    have hxpos : 0 < x.magnitude :=
      lt_of_le_of_ne x.magnitude_nonneg (Ne.symm (magnitude_eq_zero.not.mpr hx))
    have hypos : 0 < y.magnitude :=
      lt_of_le_of_ne y.magnitude_nonneg
        (Ne.symm (magnitude_eq_zero.not.mpr fun hy ↦ hx (hzero.mpr hy)))
    rw [value, value] at h
    rcases hsx : x.negative with _ | _ <;> rcases hsy : y.negative with _ | _ <;>
      simp only [hsx, hsy, Bool.false_eq_true, if_false, if_true] at h
    · exact eq_of_magnitude (hsx.trans hsy.symm) h
    · linarith
    · linarith
    · exact eq_of_magnitude (hsx.trans hsy.symm) (neg_inj.mp h)
  · intro h
    rw [← value_unsignZero x, h, value_unsignZero]

/-! ## The shortest decimal -/

/-- The number of digits that `q` has before its point. -/
def point (q : ℚ) : ℤ := Int.log 10 q + 1

/-- The two decimals of `k` digits next to `q`, the nearer first, as whole numbers. -/
def candidates (q : ℚ) (k : ℕ) : List ℕ :=
  let t := q / 10 ^ (point q - k)
  let near := roundEven t
  [near, if near = ⌊t⌋₊ then near + 1 else ⌊t⌋₊]

/-- A decimal of `k` digits that rounds to `x`. -/
def digits? (x : Double) (k : ℕ) : Option ℕ :=
  (candidates x.magnitude k).find? fun s ↦
    nearest x.negative (s * 10 ^ (point x.magnitude - k)) = some x

/-- With enough digits a number is its own decimal. -/
theorem exists_digits (x : Double) : ∃ k, (digits? x (k + 1)).isSome := by
  obtain ⟨j, hj⟩ : ∃ j : ℕ, -x.exponent ≤ j ∧ 1 - point x.magnitude ≤ j :=
    ⟨(max (-x.exponent) (1 - point x.magnitude)).toNat, by omega⟩
  refine ⟨(point x.magnitude + j).toNat - 1, ?_⟩
  have hk : (((point x.magnitude + j).toNat - 1 + 1 : ℕ) : ℤ) = point x.magnitude + j := by omega
  have hexponent : point x.magnitude - (((point x.magnitude + j).toNat - 1 + 1 : ℕ) : ℤ) = -j := by
    omega
  obtain ⟨i, hi⟩ : ∃ i : ℕ, x.exponent + j = i := ⟨(x.exponent + j).toNat, by omega⟩
  have hwhole : x.magnitude / 10 ^ (-(j : ℤ)) = ((x.significand * 2 ^ i * 5 ^ j : ℕ) : ℚ) := by
    have hpow : (2 : ℚ) ^ x.exponent * 10 ^ j = 2 ^ i * 5 ^ j := by
      rw [show (10 : ℚ) = 2 * 5 from by norm_num, mul_pow, ← mul_assoc, ← zpow_natCast 2 j,
        ← zpow_add₀ (by norm_num), hi, zpow_natCast]
    rw [magnitude, zpow_neg, div_inv_eq_mul, zpow_natCast, mul_assoc, hpow]
    push_cast
    ring
  have hback : ((x.significand * 2 ^ i * 5 ^ j : ℕ) : ℚ) * 10 ^ (-(j : ℤ)) = x.magnitude := by
    rw [← hwhole, div_mul_cancel₀ _ (by positivity)]
  simp only [digits?, candidates, hexponent, hwhole, roundEven_natCast]
  rw [List.find?_cons_of_pos (by rw [hback, nearest_magnitude]; exact decide_eq_true rfl)]
  rfl

/-- The least number of digits with which a decimal rounds to `x`. -/
def precision (x : Double) : ℕ := Nat.find (exists_digits x) + 1

/-- The digits of `x` as a whole number, and the place of the last of them. -/
def shortest (x : Double) : ℕ × ℤ :=
  let k := precision x
  let s := (digits? x k).getD 0
  let place := point x.magnitude - k
  if s = 10 ^ k then (10 ^ (k - 1), place + 1) else (s, place)

/-- The shortest decimal rounds to the number. -/
theorem nearest_shortest (x : Double) :
    nearest x.negative (x.shortest.1 * 10 ^ x.shortest.2) = some x := by
  obtain ⟨s, hs⟩ : ∃ s, digits? x x.precision = some s :=
    Option.isSome_iff_exists.mp (Nat.find_spec (exists_digits x))
  have hround : nearest x.negative (s * 10 ^ (point x.magnitude - x.precision)) = some x := by
    rw [digits?] at hs
    simpa using List.find?_some hs
  simp only [shortest, hs, Option.getD_some]
  split
  · rename_i hpower
    have hplace : ((10 ^ (x.precision - 1) : ℕ) : ℚ) * 10 ^ (point x.magnitude - x.precision + 1) =
        s * 10 ^ (point x.magnitude - x.precision) := by
      rw [hpower, zpow_add_one₀ (by norm_num), precision, Nat.add_sub_cancel]
      push_cast
      rw [pow_succ]
      ring
    rw [hplace, hround]
  · exact hround

/-- A number other than zero has digits. -/
theorem shortest_ne_zero (x : Double) (h : x.significand ≠ 0) : x.shortest.1 ≠ 0 := by
  intro hzero
  have hround := nearest_shortest x
  rw [hzero, Nat.cast_zero, zero_mul] at hround
  have hnearest : nearest x.negative 0 =
      some ⟨x.negative, 0, -1074, by decide, by decide, .inr rfl⟩ := by
    simp [nearest, scale, roundEven]
  rw [hnearest] at hround
  exact h (congrArg significand (Option.some.inj hround)).symm

end Double

end Concurrent
