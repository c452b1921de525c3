import Mathlib.Data.Nat.Digits.Lemmas
import RatThings.Library.Doubles
import RatThings.Library.Encodings

/-!
# Numbers as decimal texts

The text of a number writes its shortest decimal with a point if its first digit is near the point,
and with an exponent otherwise. The reader takes a text apart at the point and at the exponent. The
decimal that it reads is the one that was written, whichever of the four forms was used, and it
rounds to the number.
-/

namespace Concurrent

namespace Double

open Utf16

/-! ## Digits -/

/-- The units of a text of ASCII characters. -/
def unit (c : Char) : UInt16 := c.toNat.toUInt16

def digitUnit (d : ℕ) : UInt16 := (0x30 + d).toUInt16

def isDigitUnit (u : UInt16) : Bool := 0x30 ≤ u && u ≤ 0x39

def digitValue (u : UInt16) : ℕ := u.toNat - 0x30

/-- A whole number in decimal digits, none for 0. -/
def decimal (n : ℕ) : Utf16 := (Nat.digits 10 n).reverse.map digitUnit

def valueOf (digits : Utf16) : ℕ := digits.foldl (fun n u ↦ n * 10 + digitValue u) 0

/-! ## Printing -/

def exponentText (e : ℤ) : Utf16 :=
  unit 'e' :: (if e < 0 then unit '-' else unit '+') :: decimal e.natAbs

/-- The digits of `s`, the last of them at `place`. -/
def positional (s : ℕ) (place : ℤ) : Utf16 :=
  let digits := decimal s
  let n := place + digits.length
  if digits.length ≤ n ∧ n ≤ 21 then digits ++ List.replicate place.toNat (unit '0')
  else if 0 < n ∧ n ≤ 21 then digits.take n.toNat ++ unit '.' :: digits.drop n.toNat
  else if -6 < n ∧ n ≤ 0 then
    unit '0' :: unit '.' :: (List.replicate (-n).toNat (unit '0') ++ digits)
  else if digits.length = 1 then digits ++ exponentText (n - 1)
  else digits.take 1 ++ unit '.' :: (digits.drop 1 ++ exponentText (n - 1))

/-- `String(x)` -/
def text (x : Double) : Utf16 :=
  if x.significand = 0 then [unit '0']
  else (if x.negative then [unit '-'] else []) ++ positional x.shortest.1 x.shortest.2

/-! ## Reading -/

def wholeNumber (digits : Utf16) : Option ℕ :=
  if digits ≠ [] ∧ digits.all isDigitUnit then some (valueOf digits) else none

/-- The exponent at the end of a number, 0 if there is none. -/
def exponentOf : Utf16 → Option ℤ
  | [] => some 0
  | c :: rest =>
    if c = unit 'e' ∨ c = unit 'E' then
      match rest with
      | [] => none
      | sign :: digits =>
        if sign = unit '-' then (wholeNumber digits).map fun n : ℕ ↦ -(n : ℤ)
        else if sign = unit '+' then (wholeNumber digits).map fun n : ℕ ↦ (n : ℤ)
        else (wholeNumber (sign :: digits)).map fun n : ℕ ↦ (n : ℤ)
    else none

/-- The digits after the point, and what follows them. -/
def fractionOf : Utf16 → Option (Utf16 × Utf16)
  | [] => some ([], [])
  | c :: rest =>
    if c = unit '.' then
      if rest.takeWhile isDigitUnit = [] then none
      else some (rest.takeWhile isDigitUnit, rest.dropWhile isDigitUnit)
    else some ([], c :: rest)

def readDecimal (units : Utf16) : Option ℚ := do
  let whole := units.takeWhile isDigitUnit
  if whole ≠ [] ∧ (whole.length = 1 ∨ whole.head? ≠ some (unit '0')) then
    let (fraction, rest) ← fractionOf (units.dropWhile isDigitUnit)
    let e ← exponentOf rest
    some (valueOf (whole ++ fraction) * 10 ^ (e - fraction.length))
  else none

/-- A number of a JSON text, if it is finite. -/
def read (units : Utf16) : Option Double :=
  if units.head? = some (unit '-') then (readDecimal units.tail).bind (nearest true)
  else (readDecimal units).bind (nearest false)

/-! ## Digits are read back -/

variable {a b digits rest tail : Utf16} {n : ℕ} {e : ℤ}

theorem valueOf_append (a b : Utf16) :
    valueOf (a ++ b) = valueOf a * 10 ^ b.length + valueOf b := by
  induction b using List.reverseRecOn with
  | nil => simp [valueOf]
  | append_singleton b u ih =>
    have hlast : ∀ c : Utf16, valueOf (c ++ [u]) = valueOf c * 10 + digitValue u := by
      intro c
      simp [valueOf]
    rw [← List.append_assoc, hlast, hlast, ih, List.length_append, List.length_singleton, pow_succ]
    ring

theorem valueOf_zeros (n : ℕ) : valueOf (List.replicate n (unit '0')) = 0 := by
  induction n with
  | zero => rfl
  | succ n ih =>
    rw [List.replicate_succ', valueOf_append, ih]
    rfl

theorem digitValue_digitUnit : ∀ d < 10, digitValue (digitUnit d) = d := by decide

theorem isDigitUnit_digitUnit : ∀ d < 10, isDigitUnit (digitUnit d) = true := by decide

theorem digitUnit_ne_zero : ∀ d < 10, d ≠ 0 → digitUnit d ≠ unit '0' := by decide

theorem valueOf_decimal (n : ℕ) : valueOf (decimal n) = n := by
  have hfold : ∀ l : List ℕ, (∀ d ∈ l, d < 10) →
      valueOf (l.reverse.map digitUnit) = Nat.ofDigits 10 l := by
    intro l hl
    induction l with
    | nil => rfl
    | cons d l ih =>
      rw [List.reverse_cons, List.map_append, valueOf_append, ih fun d hd ↦ hl d (.tail _ hd),
        Nat.ofDigits_cons]
      simp [valueOf, digitValue_digitUnit d (hl d (.head _))]
      ring
  rw [decimal, hfold _ fun d hd ↦ Nat.digits_lt_base (by decide) hd, Nat.ofDigits_digits]

theorem isDigitUnit_of_mem_decimal {u : UInt16} (h : u ∈ decimal n) : isDigitUnit u = true := by
  obtain ⟨d, hd, rfl⟩ := List.mem_map.mp h
  exact isDigitUnit_digitUnit d (Nat.digits_lt_base (by decide) (List.mem_reverse.mp hd))

theorem decimal_ne_nil (h : n ≠ 0) : decimal n ≠ [] := by
  rw [decimal, Ne, List.map_eq_nil_iff, List.reverse_eq_nil_iff]
  exact Nat.digits_ne_nil_iff_ne_zero.mpr h

/-- A number has no leading zero. -/
theorem head?_decimal (h : n ≠ 0) : (decimal n).head? ≠ some (unit '0') := by
  have hne := Nat.digits_ne_nil_iff_ne_zero (b := 10).mpr h
  rw [decimal, List.head?_map, List.head?_reverse, List.getLast?_eq_some_getLast hne]
  intro hzero
  have hlast := Nat.getLast_digit_ne_zero 10 h
  exact digitUnit_ne_zero _ (Nat.digits_lt_base (by decide) (List.getLast_mem hne)) hlast
    (Option.some.inj hzero)

theorem isDigitUnit_zeros {u : UInt16} (h : u ∈ List.replicate n (unit '0')) :
    isDigitUnit u = true := by
  rw [List.eq_of_mem_replicate h]
  rfl

/-! ## The parts of a number are read back -/

/-- No digit comes first. -/
def Stops (rest : Utf16) : Prop := ∀ u, rest.head? = some u → isDigitUnit u = false

theorem span_digits (hdigits : ∀ u ∈ digits, isDigitUnit u = true) (hrest : Stops rest) :
    (digits ++ rest).takeWhile isDigitUnit = digits ∧
      (digits ++ rest).dropWhile isDigitUnit = rest := by
  rw [List.takeWhile_append_of_pos hdigits, List.dropWhile_append_of_pos hdigits]
  rcases rest with _ | ⟨u, rest⟩
  · simp
  · have hu := hrest u rfl
    simp [hu]

/-- What stands behind the digits of a number, and its exponent. -/
structure Exponent (tail : Utf16) (e : ℤ) : Prop where
  reads : exponentOf tail = some e
  stops : Stops tail
  noPoint : tail.head? ≠ some (unit '.')

theorem exponent_nil : Exponent [] 0 := ⟨rfl, nofun, nofun⟩

theorem wholeNumber_decimal (h : n ≠ 0) : wholeNumber (decimal n) = some n := by
  have hall : (decimal n).all isDigitUnit = true :=
    List.all_eq_true.mpr fun u hu ↦ isDigitUnit_of_mem_decimal hu
  rw [wholeNumber, if_pos ⟨decimal_ne_nil h, hall⟩, valueOf_decimal]

theorem exponent_exponentText (h : e ≠ 0) : Exponent (exponentText e) e := by
  have hwhole : wholeNumber (decimal e.natAbs) = some e.natAbs :=
    wholeNumber_decimal (Int.natAbs_ne_zero.mpr h)
  refine ⟨?_, ?_, ?_⟩
  · rw [exponentText, exponentOf, if_pos (.inl rfl)]
    by_cases hneg : e < 0
    · simp only [if_pos hneg, if_true, hwhole, Option.map_some, Option.some.injEq]
      omega
    · have hsign : unit '+' ≠ unit '-' := by decide
      simp only [if_neg hneg, if_neg hsign, if_true, hwhole, Option.map_some, Option.some.injEq]
      omega
  · rintro u ⟨⟩
    rfl
  · intro hpoint
    exact absurd (Option.some.inj hpoint) (by decide)

/-- Digits in front of a point or an exponent, without a leading zero. -/
structure Whole (whole : Utf16) : Prop where
  digits : ∀ u ∈ whole, isDigitUnit u = true
  ne_nil : whole ≠ []
  lead : whole.length = 1 ∨ whole.head? ≠ some (unit '0')

variable {whole fraction : Utf16}

theorem readDecimal_whole (hwhole : Whole whole) (htail : Exponent tail e) :
    readDecimal (whole ++ tail) = some ((valueOf whole : ℚ) * 10 ^ e) := by
  obtain ⟨htake, hdrop⟩ := span_digits hwhole.digits htail.stops
  have hfraction : fractionOf tail = some ([], tail) := by
    rcases tail with _ | ⟨c, tail⟩
    · rfl
    · rw [fractionOf, if_neg fun hc ↦ htail.noPoint (congrArg some hc)]
  rw [readDecimal, htake, hdrop, if_pos ⟨hwhole.ne_nil, hwhole.lead⟩, hfraction]
  simp [htail.reads]

theorem readDecimal_point (hwhole : Whole whole) (hfraction : ∀ u ∈ fraction, isDigitUnit u = true)
    (hne : fraction ≠ []) (htail : Exponent tail e) :
    readDecimal (whole ++ unit '.' :: (fraction ++ tail)) =
      some ((valueOf (whole ++ fraction) : ℚ) * 10 ^ (e - fraction.length)) := by
  have hpoint : Stops (unit '.' :: (fraction ++ tail)) := by
    rintro u ⟨⟩
    rfl
  obtain ⟨htake, hdrop⟩ := span_digits hwhole.digits hpoint
  obtain ⟨htake', hdrop'⟩ := span_digits hfraction htail.stops
  rw [readDecimal, htake, hdrop, if_pos ⟨hwhole.ne_nil, hwhole.lead⟩, fractionOf,
    if_pos rfl, htake',
    hdrop', if_neg hne]
  simp [htail.reads]

/-! ## Numbers are read back -/

section

variable {s : ℕ}

theorem forall_isDigitUnit (s : ℕ) : ∀ u ∈ decimal s, isDigitUnit u = true :=
  fun _ ↦ isDigitUnit_of_mem_decimal

theorem whole_take (hs : s ≠ 0) {n : ℕ} (hn : 0 < n) : Whole ((decimal s).take n) := by
  obtain ⟨d, ds, hds⟩ := List.exists_cons_of_ne_nil (decimal_ne_nil hs)
  obtain ⟨n, rfl⟩ := Nat.exists_eq_succ_of_ne_zero hn.ne'
  refine ⟨fun u hu ↦ forall_isDigitUnit s u (List.mem_of_mem_take hu), by simp [hds], .inr ?_⟩
  have hhead := head?_decimal hs
  rw [hds] at hhead ⊢
  exact hhead

theorem whole_decimal (hs : s ≠ 0) : Whole (decimal s) := by
  have hall := whole_take hs (List.length_pos_of_ne_nil (decimal_ne_nil hs))
  rwa [List.take_length] at hall

/-- Zeros that follow the digits. -/
theorem readDecimal_zeros_behind (hs : s ≠ 0) (j : ℕ) :
    readDecimal (decimal s ++ List.replicate j (unit '0')) = some ((s : ℚ) * 10 ^ (j : ℤ)) := by
  have hne := decimal_ne_nil hs
  have hzeros : Whole (decimal s ++ List.replicate j (unit '0')) := by
    refine ⟨?_, by simp [hne], .inr ?_⟩
    · intro u hu
      rcases List.mem_append.mp hu with hu | hu
      · exact forall_isDigitUnit s u hu
      · exact isDigitUnit_zeros hu
    · rw [List.head?_append_of_ne_nil _ hne]
      exact head?_decimal hs
  have hread := readDecimal_whole hzeros exponent_nil
  rw [List.append_nil] at hread
  rw [hread, valueOf_append, valueOf_zeros, valueOf_decimal]
  simp

/-- Zeros between the point and the digits. -/
theorem readDecimal_zeros_between (hs : s ≠ 0) (j : ℕ) :
    readDecimal (unit '0' :: unit '.' :: (List.replicate j (unit '0') ++ decimal s)) =
      some ((s : ℚ) * 10 ^ (-((j + (decimal s).length : ℕ) : ℤ))) := by
  have hzero : Whole [unit '0'] :=
    ⟨List.forall_mem_singleton.mpr (by decide), List.cons_ne_nil _ _, .inl rfl⟩
  have hfraction : ∀ u ∈ List.replicate j (unit '0') ++ decimal s, isDigitUnit u = true := by
    intro u hu
    rcases List.mem_append.mp hu with hu | hu
    · exact isDigitUnit_zeros hu
    · exact forall_isDigitUnit s u hu
  have hread := readDecimal_point hzero hfraction (by simp [decimal_ne_nil hs]) exponent_nil
  rw [List.append_nil] at hread
  refine hread.trans ?_
  rw [valueOf_append, valueOf_append, valueOf_zeros, valueOf_decimal, List.length_append,
    List.length_replicate]
  have hvalue : valueOf [unit '0'] = 0 := rfl
  rw [hvalue, Nat.zero_mul, Nat.zero_mul, Nat.zero_add, Nat.zero_add, zero_sub]

end

/-- **Each of the forms of a number is read as the decimal that was written.** -/
theorem readDecimal_positional {s : ℕ} (hs : s ≠ 0) (place : ℤ) :
    readDecimal (positional s place) = some ((s : ℚ) * 10 ^ place) := by
  have hlength : 0 < (decimal s).length := List.length_pos_of_ne_nil (decimal_ne_nil hs)
  have hdrop : ∀ n, ∀ u ∈ (decimal s).drop n, isDigitUnit u = true :=
    fun n u hu ↦ forall_isDigitUnit s u (List.mem_of_mem_drop hu)
  rw [positional]
  split_ifs with hlong hinside hsmall hone
  · -- zeros follow the digits
    obtain ⟨j, rfl⟩ : ∃ j : ℕ, place = j := ⟨place.toNat, by omega⟩
    rw [Int.toNat_natCast]
    exact readDecimal_zeros_behind hs j
  · -- the point stands among the digits
    have hread := readDecimal_point
      (whole_take (n := (place + (decimal s).length).toNat) hs (by omega))
      (hdrop (place + (decimal s).length).toNat) ?_ exponent_nil
    · rw [List.append_nil, List.take_append_drop, valueOf_decimal] at hread
      rw [hread, List.length_drop]
      congr 3
      omega
    · rw [Ne, List.drop_eq_nil_iff]
      omega
  · -- zeros stand between the point and the digits
    refine (readDecimal_zeros_between hs _).trans ?_
    congr 3
    omega
  · -- one digit and an exponent
    have hread := readDecimal_whole (whole_decimal hs) (exponent_exponentText
      (e := place + (decimal s).length - 1) (by omega))
    rw [hread, valueOf_decimal, hone]
    simp
  · -- several digits and an exponent
    have hread := readDecimal_point (whole_take hs Nat.one_pos) (hdrop 1) ?_ (exponent_exponentText
      (e := place + (decimal s).length - 1) (by omega))
    · rw [List.take_append_drop, valueOf_decimal] at hread
      rw [hread, List.length_drop]
      congr 3
      omega
    · rw [Ne, List.drop_eq_nil_iff]
      omega

/-- The text of a number begins with a digit. -/
theorem head?_positional {s : ℕ} (hs : s ≠ 0) (place : ℤ) :
    ∃ u, (positional s place).head? = some u ∧ isDigitUnit u = true := by
  obtain ⟨d, ds, hds⟩ := List.exists_cons_of_ne_nil (decimal_ne_nil hs)
  have hd : isDigitUnit d = true := isDigitUnit_of_mem_decimal (hds ▸ List.mem_cons_self)
  rw [positional]
  split_ifs with hlong hinside hsmall hone
  · exact ⟨d, by rw [hds]; rfl, hd⟩
  · obtain ⟨n, hn⟩ : ∃ n, (place + (decimal s).length).toNat = n + 1 :=
      ⟨(place + (decimal s).length).toNat - 1, by omega⟩
    exact ⟨d, by rw [hn, hds]; rfl, hd⟩
  · exact ⟨unit '0', rfl, rfl⟩
  · exact ⟨d, by rw [hds]; rfl, hd⟩
  · exact ⟨d, by rw [hds]; rfl, hd⟩

/-- **A number is read as it was printed**, 0 in place of −0. -/
theorem read_text (x : Double) : read x.text = some x.unsignZero := by
  rw [text, unsignZero]
  by_cases hzero : x.significand = 0
  · rw [if_pos hzero, if_pos hzero]
    have hwhole : Whole [unit '0'] :=
      ⟨List.forall_mem_singleton.mpr (by decide), List.cons_ne_nil _ _, .inl rfl⟩
    have hread := readDecimal_whole hwhole exponent_nil
    have hvalue : ((valueOf [unit '0'] : ℕ) : ℚ) * 10 ^ (0 : ℤ) = zero.magnitude := by
      simp [valueOf, digitValue, unit, magnitude, zero]
    rw [List.append_nil, hvalue] at hread
    rw [read, if_neg (by decide), hread]
    exact nearest_magnitude zero
  · rw [if_neg hzero, if_neg hzero]
    have hread := readDecimal_positional (shortest_ne_zero x hzero) x.shortest.2
    have hround := nearest_shortest x
    rcases hsign : x.negative with _ | _
    · obtain ⟨u, hhead, hdigit⟩ := head?_positional (shortest_ne_zero x hzero) x.shortest.2
      have hunit : u ≠ unit '-' := by
        rintro rfl
        exact absurd hdigit (by decide)
      simp only [Bool.false_eq_true, if_false, List.nil_append]
      rw [read, hhead, if_neg fun h ↦ hunit (Option.some.inj h), hread]
      exact hsign ▸ hround
    · simp only [if_true, List.singleton_append]
      rw [read, List.head?_cons, if_pos rfl, List.tail_cons, hread]
      exact hsign ▸ hround

/-! ## The units of a number -/

/-- The units that numbers are made of. -/
def isNumberUnit (u : UInt16) : Bool :=
  isDigitUnit u || u = unit '-' || u = unit '+' || u = unit '.' || u = unit 'e' || u = unit 'E'

theorem isNumberUnit_of_isDigitUnit {u : UInt16} (h : isDigitUnit u = true) :
    isNumberUnit u = true := by
  simp [isNumberUnit, h]

theorem isNumberUnit_exponentText {u : UInt16} (h : u ∈ exponentText e) :
    isNumberUnit u = true := by
  rw [exponentText] at h
  rcases List.mem_cons.mp h with rfl | h
  · rfl
  rcases List.mem_cons.mp h with rfl | h
  · split <;> rfl
  · exact isNumberUnit_of_isDigitUnit (isDigitUnit_of_mem_decimal h)

theorem isNumberUnit_positional {s : ℕ} {place : ℤ} {u : UInt16} (h : u ∈ positional s place) :
    isNumberUnit u = true := by
  have hdigit : ∀ u ∈ decimal s, isNumberUnit u = true :=
    fun u hu ↦ isNumberUnit_of_isDigitUnit (isDigitUnit_of_mem_decimal hu)
  have hzero : ∀ n, ∀ u ∈ List.replicate n (unit '0'), isNumberUnit u = true :=
    fun n u hu ↦ isNumberUnit_of_isDigitUnit (isDigitUnit_zeros hu)
  rw [positional] at h
  split_ifs at h
  · rcases List.mem_append.mp h with h | h
    · exact hdigit u h
    · exact hzero _ u h
  · rcases List.mem_append.mp h with h | h
    · exact hdigit u (List.mem_of_mem_take h)
    rcases List.mem_cons.mp h with rfl | h
    · rfl
    · exact hdigit u (List.mem_of_mem_drop h)
  · rcases List.mem_cons.mp h with rfl | h
    · rfl
    rcases List.mem_cons.mp h with rfl | h
    · rfl
    rcases List.mem_append.mp h with h | h
    · exact hzero _ u h
    · exact hdigit u h
  · rcases List.mem_append.mp h with h | h
    · exact hdigit u h
    · exact isNumberUnit_exponentText h
  · rcases List.mem_append.mp h with h | h
    · exact hdigit u (List.mem_of_mem_take h)
    rcases List.mem_cons.mp h with rfl | h
    · rfl
    rcases List.mem_append.mp h with h | h
    · exact hdigit u (List.mem_of_mem_drop h)
    · exact isNumberUnit_exponentText h

theorem isNumberUnit_text {x : Double} {u : UInt16} (h : u ∈ x.text) : isNumberUnit u = true := by
  rw [text] at h
  split at h
  · rw [List.mem_singleton.mp h]
    rfl
  rcases List.mem_append.mp h with h | h
  · split at h
    · rw [List.mem_singleton.mp h]
      rfl
    · exact nomatch h
  · exact isNumberUnit_positional h

/-- Both zeros have one text. -/
theorem text_unsignZero (x : Double) : x.unsignZero.text = x.text := by
  rw [unsignZero]
  split
  · next hzero =>
    rw [text, text, if_pos hzero]
    rfl
  · rfl

theorem text_ne_nil (x : Double) : x.text ≠ [] := by
  intro hnil
  have hread := read_text x
  rw [hnil] at hread
  exact nomatch hread

end Double

end Concurrent
