import Mathlib.Algebra.BigOperators.Group.List.Basic
import Mathlib.Algebra.Order.Ring.Rat
import Mathlib.Algebra.Ring.Rat
import Mathlib.Data.Nat.Cast.Order.Ring
import Mathlib.Data.Rat.Lemmas
import RatThings.Runtime.State

/-!
# Sums of token usage

Usage is added up count by count, so that it is a commutative monoid, and sums of lists come with
the lemmas they have for any monoid. The number of all tokens is kept beside those of the input and
of the output; the runtime never adds the two when it adds up usage, and they stay its sum
(`TokenUsage.Whole`).

Counts are rational numbers here and doubles in the runtime. The two agree as long as counts are
natural numbers and no sum exceeds `2 ^ 53` (`TokenUsage.Exact`), beyond which doubles are rounded.
A part of a sum of natural numbers is not larger than the sum, so that it is enough to know this of
what is left at the end.
-/

namespace RatThings.Runtime

/-! ## Sums of usage -/

namespace TokenUsage

instance : Zero TokenUsage := ⟨⟨0, 0, 0, 0, 0⟩⟩

instance : Add TokenUsage := ⟨TokenUsage.add⟩

instance : AddCommMonoid TokenUsage where
  add_assoc a b c := by
    change TokenUsage.add (TokenUsage.add a b) c = TokenUsage.add a (TokenUsage.add b c)
    simp only [TokenUsage.add, add_assoc]
  zero_add a := by
    change TokenUsage.add ⟨0, 0, 0, 0, 0⟩ a = a
    simp only [TokenUsage.add, zero_add]
  add_zero a := by
    change TokenUsage.add a ⟨0, 0, 0, 0, 0⟩ = a
    simp only [TokenUsage.add, add_zero]
  add_comm a b := by
    change TokenUsage.add a b = TokenUsage.add b a
    simp only [TokenUsage.add, add_comm]
  nsmul := nsmulRec

theorem add_eq (a b : TokenUsage) : a + b = TokenUsage.add a b := rfl

/-- What a count has grown by. -/
def since (total before : TokenUsage) : TokenUsage :=
  ⟨total.inputTokens - before.inputTokens, total.outputTokens - before.outputTokens,
    total.totalTokens - before.totalTokens, total.cachedTokens - before.cachedTokens,
    total.reasoningTokens - before.reasoningTokens⟩

theorem add_since (total before : TokenUsage) : before + total.since before = total := by
  simp only [add_eq, TokenUsage.add, since, add_sub_cancel]

/-- No count is smaller than before. -/
def Grows (before total : TokenUsage) : Prop :=
  before.inputTokens ≤ total.inputTokens ∧ before.outputTokens ≤ total.outputTokens ∧
    before.cachedTokens ≤ total.cachedTokens ∧ before.reasoningTokens ≤ total.reasoningTokens

instance (before total : TokenUsage) : Decidable (before.Grows total) :=
  inferInstanceAs (Decidable (_ ∧ _ ∧ _ ∧ _))

/-- All tokens are those of the input and those of the output. -/
def Whole (usage : TokenUsage) : Prop := usage.totalTokens = usage.inputTokens + usage.outputTokens

theorem whole_publicUsage (value : JsonValue) : (publicUsage value).Whole := rfl

theorem whole_zero : Whole 0 := (add_zero (0 : ℚ)).symm

theorem Whole.add {a b : TokenUsage} (ha : a.Whole) (hb : b.Whole) : (a + b).Whole := by
  rw [Whole, add_eq, TokenUsage.add, ha, hb]
  exact add_add_add_comm _ _ _ _

theorem Whole.since {a b : TokenUsage} (ha : a.Whole) (hb : b.Whole) : (a.since b).Whole := by
  rw [Whole, TokenUsage.since, ha, hb]
  exact add_sub_add_comm _ _ _ _

theorem Whole.sum {usages : List TokenUsage} (h : ∀ usage ∈ usages, usage.Whole) :
    usages.sum.Whole := by
  induction usages with
  | nil => exact whole_zero
  | cons usage usages ih =>
    rw [List.forall_mem_cons] at h
    rw [List.sum_cons]
    exact h.1.add (ih h.2)

end TokenUsage

theorem totalUsage_pair (before : Option TokenUsage) (usage : TokenUsage) :
    totalUsage [before, some usage] = some (before.getD 0 + usage) := by
  rcases before with _ | before
  · exact congrArg some rfl
  · have hzero : TokenUsage.add ⟨0, 0, 0, 0, 0⟩ before = before := zero_add before
    change some (TokenUsage.add (TokenUsage.add ⟨0, 0, 0, 0, 0⟩ before) usage) = _
    rw [hzero]
    rfl

/-- What a total that never falls has grown by is what the runtime charges for it. -/
theorem usageDifference_eq {total : TokenUsage} {before : Option TokenUsage} (htotal : total.Whole)
    (hbefore : ∀ usage ∈ before, usage.Whole ∧ usage.Grows total) :
    usageDifference total before = total.since (before.getD 0) := by
  rcases before with _ | before
  · have hdelta (value : ℚ) : usageDelta value 0 = value - 0 := by
      rw [usageDelta, sub_zero, ite_self]
    have htokens : total.totalTokens - 0 = total.inputTokens - 0 + (total.outputTokens - 0) :=
      htotal.since TokenUsage.whole_zero
    change usageDifference total none =
      ⟨total.inputTokens - 0, total.outputTokens - 0, total.totalTokens - 0, total.cachedTokens - 0,
        total.reasoningTokens - 0⟩
    simp only [usageDifference, Option.getD_none, hdelta, htokens]
  · obtain ⟨hwhole, hinput, houtput, hcached, hreasoning⟩ := hbefore before rfl
    have htokens : total.totalTokens - before.totalTokens = total.inputTokens - before.inputTokens +
        (total.outputTokens - before.outputTokens) := htotal.since hwhole
    simp only [usageDifference, Option.getD_some, usageDelta, if_pos hinput, if_pos houtput,
      if_pos hcached, if_pos hreasoning, TokenUsage.since, htokens]

/-! ## Numbers that doubles represent

Up to `2 ^ 53` every natural number is a double, and sums and differences of such numbers are not
rounded as long as they stay there. -/

/-- A natural number. -/
def IsNatural (value : ℚ) : Prop := value.den = 1 ∧ 0 ≤ value

instance (value : ℚ) : Decidable (IsNatural value) :=
  inferInstanceAs (Decidable (value.den = 1 ∧ 0 ≤ value))

theorem isNatural_iff {value : ℚ} : IsNatural value ↔ ∃ n : ℕ, (n : ℚ) = value := by
  constructor
  · rintro ⟨hden, hpos⟩
    refine ⟨value.num.toNat, ?_⟩
    have hnum : ((value.num.toNat : ℤ) : ℚ) = (value.num : ℚ) := by
      rw [Int.toNat_of_nonneg (Rat.num_nonneg.mpr hpos)]
    rw [← Int.cast_natCast, hnum]
    exact Rat.coe_int_num_of_den_eq_one hden
  · rintro ⟨n, rfl⟩
    exact ⟨Rat.den_natCast n, Nat.cast_nonneg n⟩

theorem IsNatural.add {a b : ℚ} (ha : IsNatural a) (hb : IsNatural b) : IsNatural (a + b) := by
  obtain ⟨m, rfl⟩ := isNatural_iff.mp ha
  obtain ⟨n, rfl⟩ := isNatural_iff.mp hb
  exact isNatural_iff.mpr ⟨m + n, Nat.cast_add m n⟩

theorem IsNatural.sub {a b : ℚ} (ha : IsNatural a) (hb : IsNatural b) (hle : b ≤ a) :
    IsNatural (a - b) := by
  obtain ⟨m, rfl⟩ := isNatural_iff.mp ha
  obtain ⟨n, rfl⟩ := isNatural_iff.mp hb
  exact isNatural_iff.mpr ⟨m - n, Nat.cast_sub (Nat.cast_le.mp hle)⟩

namespace TokenUsage

/-- All counts are natural numbers. -/
@[mk_iff]
structure Natural (usage : TokenUsage) : Prop where
  inputTokens : IsNatural usage.inputTokens
  outputTokens : IsNatural usage.outputTokens
  totalTokens : IsNatural usage.totalTokens
  cachedTokens : IsNatural usage.cachedTokens
  reasoningTokens : IsNatural usage.reasoningTokens

/-- No count is larger than `2 ^ 53`. -/
@[mk_iff]
structure Bounded (usage : TokenUsage) : Prop where
  inputTokens : usage.inputTokens ≤ 2 ^ 53
  outputTokens : usage.outputTokens ≤ 2 ^ 53
  totalTokens : usage.totalTokens ≤ 2 ^ 53
  cachedTokens : usage.cachedTokens ≤ 2 ^ 53
  reasoningTokens : usage.reasoningTokens ≤ 2 ^ 53

/-- All counts are numbers that doubles add without rounding. -/
@[mk_iff]
structure Exact (usage : TokenUsage) : Prop where
  natural : usage.Natural
  bounded : usage.Bounded

instance (usage : TokenUsage) : Decidable usage.Natural :=
  decidable_of_iff _ (natural_iff usage).symm

instance (usage : TokenUsage) : Decidable usage.Bounded :=
  decidable_of_iff _ (bounded_iff usage).symm

instance (usage : TokenUsage) : Decidable usage.Exact := decidable_of_iff _ (exact_iff usage).symm

theorem natural_zero : Natural 0 := by decide

theorem exact_zero : Exact 0 := by decide

theorem Natural.add {a b : TokenUsage} (ha : a.Natural) (hb : b.Natural) : (a + b).Natural where
  inputTokens := ha.inputTokens.add hb.inputTokens
  outputTokens := ha.outputTokens.add hb.outputTokens
  totalTokens := ha.totalTokens.add hb.totalTokens
  cachedTokens := ha.cachedTokens.add hb.cachedTokens
  reasoningTokens := ha.reasoningTokens.add hb.reasoningTokens

theorem Natural.sum {usages : List TokenUsage} (h : ∀ usage ∈ usages, usage.Natural) :
    usages.sum.Natural := by
  induction usages with
  | nil => exact natural_zero
  | cons usage usages ih =>
    rw [List.forall_mem_cons] at h
    rw [List.sum_cons]
    exact h.1.add (ih h.2)

/-- What a count has grown by is a natural number, if the count is one and has not fallen. -/
theorem Natural.since {total before : TokenUsage} (htotal : total.Natural)
    (hbefore : before.Natural) (hgrows : before.Grows total) (hwhole : total.Whole)
    (hwhole' : before.Whole) : (total.since before).Natural := by
  obtain ⟨hinput, houtput, hcached, hreasoning⟩ := hgrows
  have htokens : before.totalTokens ≤ total.totalTokens := by
    rw [hwhole, hwhole']
    exact add_le_add hinput houtput
  exact ⟨htotal.inputTokens.sub hbefore.inputTokens hinput,
    htotal.outputTokens.sub hbefore.outputTokens houtput,
    htotal.totalTokens.sub hbefore.totalTokens htokens,
    htotal.cachedTokens.sub hbefore.cachedTokens hcached,
    htotal.reasoningTokens.sub hbefore.reasoningTokens hreasoning⟩

/-- A part of a sum is not larger than the sum. -/
theorem Exact.of_add {a b : TokenUsage} (ha : a.Natural) (hb : b.Natural) (h : (a + b).Exact) :
    a.Exact where
  natural := ha
  bounded :=
    have hle {part rest : ℚ} (hrest : IsNatural rest) (hsum : part + rest ≤ 2 ^ 53) :
        part ≤ 2 ^ 53 := (le_add_of_nonneg_right hrest.2).trans hsum
    ⟨hle hb.inputTokens h.bounded.inputTokens, hle hb.outputTokens h.bounded.outputTokens,
      hle hb.totalTokens h.bounded.totalTokens, hle hb.cachedTokens h.bounded.cachedTokens,
      hle hb.reasoningTokens h.bounded.reasoningTokens⟩

theorem Exact.of_mem_sum {usages : List TokenUsage} (hnatural : ∀ usage ∈ usages, usage.Natural)
    (h : usages.sum.Exact) {usage : TokenUsage} (husage : usage ∈ usages) : usage.Exact := by
  rw [← List.sum_erase husage] at h
  refine .of_add (hnatural usage husage) (.sum fun other hother ↦ ?_) h
  exact hnatural other (List.mem_of_mem_erase hother)

end TokenUsage

end RatThings.Runtime
