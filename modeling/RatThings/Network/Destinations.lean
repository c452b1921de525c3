import RatThings.Library.IpText
import RatThings.Library.Separator

/-!
# Destinations that are public

`publicNetworkAddress` decides about an IPv4 address by its numbers and about an IPv6 address by
patterns on its text. So what it says of an IPv6 address may depend on how the address is written,
and this module says when it does.

## Spellings

The library reads an address as a list of groups, with a gap where groups are left out, and every
spelling of an address begins with its first two groups or leaves them out (`Begins` there).
The first group of a public address needs four digits, so it has one spelling up to case; the
second does not, and the patterns name one spelling of the groups they exclude. A special group
behind 2001 that is left out, or written with leading zeros, is therefore not recognized
(`Misspelled`).

`Excluded` says which addresses are meant to be excluded, in terms of their numbers, and
`same_answer_iff` that two spellings of an address get the same answer, and the one that is meant,
exactly if neither is misspelled.
-/

namespace RatThings.Network

open Concurrent IpText

/-! ## The check

The patterns are lists of predicates on characters, one for each character of the expression. -/

/-- `isIP` -/
def isIP (address : List Char) : ℕ :=
  match addressOf address with
  | some (.v4 _ _ _ _) => 4
  | some (.v6 _) => 6
  | none => 0

/-- `Number` of a text of decimal digits. -/
def number (s : List Char) : ℕ := ((s.mapM decimalDigit).map (ofDigits 10)).getD 0

/-- A pattern of character classes at the beginning of a text. -/
@[grind =]
def test : List (Char → Bool) → List Char → Bool
  | [], _ => true
  | _ :: _, [] => false
  | p :: pattern, c :: text => p c && test pattern text

/-- The characters of a pattern, with the flag `i`. -/
def anyCase (s : List Char) : List (Char → Bool) := s.map fun x c ↦ decide (c.toLower = x)

/-- `[23]` -/
def twoOrThree (c : Char) : Bool := c = '2' || c = '3'

/-- `[0-9a-f]`, with the flag `i`. -/
def hexadecimal (c : Char) : Bool :=
  '0' ≤ c && c ≤ '9' || 'a' ≤ c.toLower && c.toLower ≤ 'f'

/-- `/^[23][0-9a-f]{3}:/i` -/
def globalPattern : List (Char → Bool) :=
  [twoOrThree, hexadecimal, hexadecimal, hexadecimal] ++ anyCase [':']

/-- `/^2001:(?:0:|db8:|10:|20:)/i` -/
def specialPatterns : List (List (Char → Bool)) :=
  [anyCase ("2001".toList ++ ':' :: "0:".toList), anyCase ("2001".toList ++ ':' :: "db8:".toList),
    anyCase ("2001".toList ++ ':' :: "10:".toList), anyCase ("2001".toList ++ ':' :: "20:".toList)]

/-- `/^2002:/i` -/
def sixToFourPattern : List (Char → Bool) := anyCase ("2002".toList ++ ':' :: [])

/-- The check of the first three numbers of an IPv4 address. -/
def publicNumbers (a b c : ℕ) : Bool :=
  a ≠ 0 && a ≠ 10 && a ≠ 127 && a < 224 &&
    !(a = 100 && b ≥ 64 && b ≤ 127) && !(a = 169 && b = 254) &&
    !(a = 172 && b ≥ 16 && b ≤ 31) && !(a = 192 && (b = 168 || b = 0 || b = 2)) &&
    !(a = 198 && (b = 18 || b = 19 || b = 51 && c = 100)) && !(a = 203 && b = 0 && c = 113)

/-- The numbers that `split('.')` gives, the first three of them. -/
@[grind =]
def publicParts : List ℕ → Bool
  | a :: b :: c :: _ => publicNumbers a b c
  | _ => false

@[grind =]
def publicNetworkAddress (address : List Char) : Bool :=
  if isIP address = 4 then publicParts ((address.splitOn '.').map number)
  else isIP address = 6 && test globalPattern address &&
    !(specialPatterns.any fun pattern ↦ test pattern address) && !test sixToFourPattern address

/-! ## Addresses

What the patterns are to exclude, said of the groups and not of the text. -/

/-- The IPv4 addresses excluded, by their first three numbers. -/
def ExcludedNumbers (a b c : ℕ) : Prop :=
  a = 0 ∨ a = 10 ∨ a = 127 ∨ 224 ≤ a ∨ a = 100 ∧ 64 ≤ b ∧ b ≤ 127 ∨ a = 169 ∧ b = 254 ∨
    a = 172 ∧ 16 ≤ b ∧ b ≤ 31 ∨ a = 192 ∧ (b = 168 ∨ b = 0 ∨ b = 2) ∨
    a = 198 ∧ (b = 18 ∨ b = 19 ∨ b = 51 ∧ c = 100) ∨ a = 203 ∧ b = 0 ∧ c = 113

/-- The blocks 2001::/32, 2001:db8::/32, 2001:10::/32 and 2001:20::/32 by their second group. -/
def specialGroups : List ℕ := [0, 0xdb8, 0x10, 0x20]

/-- The IPv6 addresses excluded: all outside 2000::/3, the special blocks of 2001::/16, and
2002::/16. -/
def ExcludedGroups (g g' : ℕ) : Prop :=
  ¬ (0x2000 ≤ g ∧ g ≤ 0x3fff) ∨ g = 0x2001 ∧ g' ∈ specialGroups ∨ g = 0x2002

/-- An address in one of the excluded blocks. -/
def Excluded : IpAddress → Prop
  | .v4 a b c _ => ExcludedNumbers a b c
  | .v6 groups => ExcludedGroups (groups.getD 0 0) (groups.getD 1 0)

/-- The first group is 2001, and the second is special and left out or written with leading
zeros. -/
def Misspelled (address : List Char) : Prop :=
  (∃ rest, address = "2001".toList ++ ':' :: ':' :: rest) ∨
    ∃ s g rest, address = "2001".toList ++ ':' :: (('0' :: s) ++ ':' :: rest) ∧ s ≠ [] ∧
      group ('0' :: s) = some g ∧ g ∈ specialGroups

/-! ## Patterns on groups

A pattern for a group matches its spellings with just the digits the pattern has. -/

variable {s s' p q rest : List Char} {digits : List ℕ} {g g' : ℕ}

/-- A pattern that begins with a group. -/
theorem test_anyCase (hp : ':' ∉ p) (hs : ':' ∉ s.map Char.toLower) :
    test (anyCase (p ++ ':' :: q)) (s ++ ':' :: rest) =
      (decide (s.map Char.toLower = p) && test (anyCase q) rest) := by
  induction p generalizing s with
  | nil =>
    cases s with
    | nil => rfl
    | cons c s =>
      have hne : c.toLower ≠ ':' := fun h ↦ hs (h ▸ List.mem_cons_self)
      simp [anyCase, test, hne]
  | cons x p ih =>
    have hx : ':' ≠ x := fun h ↦ hp (h ▸ List.mem_cons_self)
    cases s with
    | nil => simp [anyCase, test, hx]
    | cons c s =>
      have htail := ih (fun h ↦ hp (List.mem_cons_of_mem _ h))
        (fun h ↦ hs (List.mem_cons_of_mem _ h))
      change (decide (c.toLower = x) && test (anyCase (p ++ ':' :: q)) (s ++ ':' :: rest)) = _
      rw [htail, ← Bool.and_assoc]
      congr 1
      simp

theorem classes_of_hexDigit {c : Char} {d : ℕ} (h : hexDigit c = some d) :
    hexadecimal c = true ∧ twoOrThree c = decide (d = 2 ∨ d = 3) := by
  have hall : ∀ p ∈ hexDigits,
      hexadecimal p.1 = true ∧ twoOrThree p.1 = decide (p.2 = 2 ∨ p.2 = 3) := by decide
  exact hall _ (mem_hexDigits h)

theorem test_globalPattern_of_short (h : s.length ≤ 3) :
    test globalPattern (s ++ ':' :: rest) = false := by
  have hcolon : hexadecimal ':' = false := by decide
  have hcolon' : twoOrThree ':' = false := by decide
  match s, h with
  | [], _ => simp [globalPattern, test, hcolon']
  | [_], _ => simp [globalPattern, test, hcolon]
  | [_, _], _ => simp [globalPattern, test, hcolon]
  | [_, _, _], _ => simp [globalPattern, test, hcolon]

/-- Only a group of four digits is large enough, and its first digit decides. -/
theorem test_globalPattern (h : Digits s digits) :
    test globalPattern (s ++ ':' :: rest) =
      decide (0x2000 ≤ ofDigits 16 digits ∧ ofDigits 16 digits ≤ 0x3fff) := by
  have hchars := h.chars
  by_cases hshort : digits.length ≤ 3
  · have hsmall : ¬ 0x2000 ≤ ofDigits 16 digits := by
      rcases h.cases with ⟨a, rfl, _⟩ | ⟨a, b, rfl, _⟩ | ⟨a, b, c, rfl, _⟩ | ⟨a, b, c, d, rfl, _⟩
      · simp only [ofDigits, List.foldl_cons, List.foldl_nil]
        omega
      · simp only [ofDigits, List.foldl_cons, List.foldl_nil]
        omega
      · simp only [ofDigits, List.foldl_cons, List.foldl_nil]
        omega
      · exact absurd hshort (by simp)
    rw [test_globalPattern_of_short (hchars.length_eq ▸ hshort)]
    simp [hsmall]
  · obtain ⟨a, b, c, d, rfl, ha, hb, hc, hd⟩ : ∃ a b c d, digits = [a, b, c, d] ∧ a < 16 ∧
        b < 16 ∧ c < 16 ∧ d < 16 := by
      rcases h.cases with ⟨a, rfl, _⟩ | ⟨a, b, rfl, _⟩ | ⟨a, b, c, rfl, _⟩ | hfour
      · exact absurd hshort (by simp)
      · exact absurd hshort (by simp)
      · exact absurd hshort (by simp)
      · exact hfour
    obtain ⟨x, _, hx, htail₁, rfl⟩ := List.forall₂_cons_right_iff.mp hchars
    obtain ⟨y, _, hy, htail₂, rfl⟩ := List.forall₂_cons_right_iff.mp htail₁
    obtain ⟨z, _, hz, htail₃, rfl⟩ := List.forall₂_cons_right_iff.mp htail₂
    obtain ⟨w, _, hw, hnil, rfl⟩ := List.forall₂_cons_right_iff.mp htail₃
    obtain rfl := List.forall₂_nil_right_iff.mp hnil
    have hrange : (0x2000 ≤ ofDigits 16 [a, b, c, d] ∧ ofDigits 16 [a, b, c, d] ≤ 0x3fff) ↔
        a = 2 ∨ a = 3 := by
      simp only [ofDigits, List.foldl_cons, List.foldl_nil]
      omega
    have hend : test (anyCase [':']) (':' :: rest) = true := rfl
    simp only [globalPattern, test, List.cons_append, List.nil_append,
      (classes_of_hexDigit hx).2, (classes_of_hexDigit hy).1, (classes_of_hexDigit hz).1,
      (classes_of_hexDigit hw).1, hrange, hend, Bool.and_true]

/-- The values of the first group that the other patterns name. -/
theorem first_group (h : Digits s digits) :
    (s.map Char.toLower = "2001".toList ↔ ofDigits 16 digits = 0x2001) ∧
      (s.map Char.toLower = "2002".toList ↔ ofDigits 16 digits = 0x2002) ∧
      (ofDigits 16 digits = 0x2001 → s = "2001".toList) := by
  have hvalue : ∀ d < 10, ofDigits 16 digits = 0x2000 + d ↔ digits = [2, 0, 0, d] := by
    intro d hd
    rcases h.cases with ⟨a, rfl, _⟩ | ⟨a, b, rfl, _⟩ | ⟨a, b, c, rfl, _⟩ | ⟨a, b, c, d, rfl, _⟩ <;>
      simp only [ofDigits, List.foldl_cons, List.foldl_nil, List.cons.injEq, reduceCtorEq,
        and_false, and_true, iff_false] <;> omega
  have hlower : ∀ d < 10, s.map Char.toLower = [2, 0, 0, d].map Nat.digitChar ↔
      digits = [2, 0, 0, d] := by
    intro d hd
    exact h.lower_eq_iff (by simp; omega)
  refine ⟨(hlower 1 (by decide)).trans (hvalue 1 (by decide)).symm,
    (hlower 2 (by decide)).trans (hvalue 2 (by decide)).symm, fun heq ↦ ?_⟩
  obtain rfl := (hvalue 1 (by decide)).mp heq
  exact h.eq_of_lt (by decide)

/-- Each special value has one spelling without a leading zero. -/
theorem second_group (h : Digits s digits) :
    s.map Char.toLower ∈ ["0".toList, "db8".toList, "10".toList, "20".toList] ↔
      ofDigits 16 digits ∈ specialGroups ∧ ¬ ∃ more, digits = 0 :: more ∧ more ≠ [] := by
  have hlower : s.map Char.toLower ∈ ["0".toList, "db8".toList, "10".toList, "20".toList] ↔
      digits ∈ [[0], [13, 11, 8], [1, 0], [2, 0]] := by
    simp only [List.mem_cons, List.not_mem_nil, or_false]
    refine or_congr (h.lower_eq_iff (show ∀ d ∈ [0], d < 16 by decide))
      (or_congr ?_ (or_congr ?_ ?_))
    · exact h.lower_eq_iff (show ∀ d ∈ [13, 11, 8], d < 16 by decide)
    · exact h.lower_eq_iff (show ∀ d ∈ [1, 0], d < 16 by decide)
    · exact h.lower_eq_iff (show ∀ d ∈ [2, 0], d < 16 by decide)
  rw [hlower]
  rcases h.cases with ⟨a, rfl, _⟩ | ⟨a, b, rfl, _⟩ | ⟨a, b, c, rfl, _⟩ | ⟨a, b, c, d, rfl, _⟩ <;>
    simp [ofDigits, specialGroups] <;> omega

/-! ## The answer for an address -/

/-- The first group alone: in 2000::/3, and not 2002. -/
theorem patterns_of_group (h : Digits s digits) :
    test globalPattern (s ++ ':' :: rest) = true ∧
        test sixToFourPattern (s ++ ':' :: rest) = false ↔
      0x2000 ≤ ofDigits 16 digits ∧ ofDigits 16 digits ≤ 0x3fff ∧ ofDigits 16 digits ≠ 0x2002 := by
  have hsix : test sixToFourPattern (s ++ ':' :: rest) =
      decide (ofDigits 16 digits = 0x2002) := by
    rw [sixToFourPattern, test_anyCase (by decide) h.colon_notMem_lower,
      decide_eq_decide.mpr (first_group h).2.1]
    exact Bool.and_true _
  rw [test_globalPattern h, hsix, decide_eq_true_iff, decide_eq_false_iff_not, and_assoc]

/-- The special patterns ask for a group behind 2001, and name its text. -/
theorem specialPatterns_any (h : Digits s digits) :
    (specialPatterns.any fun pattern ↦ test pattern (s ++ ':' :: rest)) =
      (decide (ofDigits 16 digits = 0x2001) &&
        (["0:", "db8:", "10:", "20:"].any fun p ↦ test (anyCase p.toList) rest)) := by
  have hcolon : ':' ∉ "2001".toList := by decide
  simp only [specialPatterns, List.any_cons, List.any_nil, test_anyCase hcolon h.colon_notMem_lower,
    decide_eq_decide.mpr (first_group h).1, Bool.or_false, Bool.and_or_distrib_left]

theorem any_second_group {digits' : List ℕ} (h : Digits s' digits') :
    (["0:", "db8:", "10:", "20:"].any fun p ↦ test (anyCase p.toList) (s' ++ ':' :: rest)) = true ↔
      ofDigits 16 digits' ∈ specialGroups ∧ ¬ ∃ more, digits' = 0 :: more ∧ more ≠ [] := by
  have hone : ∀ p : List Char, ':' ∉ p →
      (test (anyCase (p ++ ':' :: [])) (s' ++ ':' :: rest) = true ↔ s'.map Char.toLower = p) := by
    intro p hp
    rw [test_anyCase hp h.colon_notMem_lower]
    simp [anyCase, test]
  rw [← second_group h]
  simp only [List.any_cons, List.any_nil, Bool.or_false, Bool.or_eq_true, List.mem_cons,
    List.not_mem_nil, or_false]
  exact or_congr (hone "0".toList (by decide)) (or_congr (hone "db8".toList (by decide))
    (or_congr (hone "10".toList (by decide)) (hone "20".toList (by decide))))

/-- A second group that is left out is none of those named. -/
theorem any_colon :
    (["0:", "db8:", "10:", "20:"].any fun p ↦ test (anyCase p.toList) (':' :: rest)) = false := rfl

/-- A misspelled text begins with 2001. -/
theorem misspelled_group (h : Digits s digits) :
    Misspelled (s ++ ':' :: rest) ↔ ofDigits 16 digits = 0x2001 ∧
      ((∃ more, rest = ':' :: more) ∨ ∃ r g more, rest = ('0' :: r) ++ ':' :: more ∧ r ≠ [] ∧
        group ('0' :: r) = some g ∧ g ∈ specialGroups) := by
  have hcolon := h.colon_notMem
  have hvalue : s = "2001".toList → ofDigits 16 digits = 0x2001 := by
    rintro rfl
    exact (first_group h).1.mp (by decide)
  constructor
  · rintro (⟨more, heq⟩ | ⟨r, g, more, heq, hr, hg, hspecial⟩)
    · obtain ⟨hs, hrest⟩ := eq_of_append_separator heq hcolon (by decide)
      exact ⟨hvalue hs, .inl ⟨more, hrest⟩⟩
    · obtain ⟨hs, hrest⟩ := eq_of_append_separator heq hcolon (by decide)
      exact ⟨hvalue hs, .inr ⟨r, g, more, hrest, hr, hg, hspecial⟩⟩
  · rintro ⟨heq, hrest⟩
    rw [(first_group h).2.2 heq]
    rcases hrest with ⟨more, rfl⟩ | ⟨r, g, more, rfl, hr, hg, hspecial⟩
    · exact .inl ⟨more, rfl⟩
    · exact .inr ⟨r, g, more, rfl, hr, hg, hspecial⟩

/-- What is misspelled behind 2001 is a special group with a leading zero. -/
theorem left_of_digits (h : Digits s digits) (hgroup : group s = some (ofDigits 16 digits)) :
    ((∃ more, s ++ ':' :: rest = ':' :: more) ∨
        ∃ r g more, s ++ ':' :: rest = ('0' :: r) ++ ':' :: more ∧ r ≠ [] ∧
          group ('0' :: r) = some g ∧ g ∈ specialGroups) ↔
      ofDigits 16 digits ∈ specialGroups ∧ ∃ more, digits = 0 :: more ∧ more ≠ [] := by
  constructor
  · rintro (⟨more, heq⟩ | ⟨r, g, more, heq, hr, hg, hspecial⟩)
    · have hnil : ([] : List Char) = s :=
        (eq_of_append_separator (l := []) heq.symm (by simp) h.colon_notMem).1
      rw [← hnil] at h
      exact absurd h.length.1 (by rw [← h.chars.length_eq]; simp)
    · obtain ⟨digits', hdigits', -⟩ := group_eq_some hg
      obtain ⟨rfl, -⟩ := eq_of_append_separator heq h.colon_notMem hdigits'.colon_notMem
      rw [hgroup] at hg
      rw [Option.some.inj hg]
      exact ⟨hspecial, h.of_zero_cons hr⟩
  · rintro ⟨hspecial, more, rfl, hmore⟩
    obtain ⟨r, rfl, hr⟩ := h.zero_cons hmore
    exact .inr ⟨r, _, rest, rfl, hr, hgroup, hspecial⟩

/-- A special second group is named by the patterns, or left over by them. -/
theorem decision_iff {v g : ℕ} {named : Bool} {left : Prop}
    (hspecial : g ∈ specialGroups ↔ named = true ∨ left) (hnamed : named = true → ¬ left) :
    ((0x2000 ≤ v ∧ v ≤ 0x3fff ∧ v ≠ 0x2002) ∧ (decide (v = 0x2001) && named) = false) ↔
      ¬ ExcludedGroups v g ∨ v = 0x2001 ∧ left := by
  rw [ExcludedGroups, hspecial]
  by_cases hv : v = 0x2001
  · cases named with
    | true => simp [hv, hnamed rfl]
    | false => simp [hv, em']
  · simp only [hv, decide_false, Bool.false_and, and_true, false_and, or_false, false_or]
    omega

theorem getD_of_take {groups : List ℕ} (h : groups.take 2 = [g, g']) :
    groups.getD 0 0 = g ∧ groups.getD 1 0 = g' := by
  match groups, h with
  | [_, _], rfl => exact ⟨rfl, rfl⟩
  | _ :: _ :: _ :: _, rfl => exact ⟨rfl, rfl⟩

/-- An IPv6 address is let through where it is in no excluded block, or is misspelled. What is
misspelled is excluded. -/
theorem publicNetworkAddress_v6 {t : List Char} {groups : List ℕ}
    (h : addressOf t = some (.v6 groups)) :
    (publicNetworkAddress t = true ↔ ¬ Excluded (.v6 groups) ∨ Misspelled t) ∧
      (Misspelled t → Excluded (.v6 groups)) := by
  have hv6 : isIP t = 6 := by rw [isIP, h]
  rw [publicNetworkAddress, hv6, if_neg (by decide)]
  simp only [decide_true, Bool.true_and, Bool.and_eq_true, Bool.not_eq_true', and_right_comm]
  rcases begins_of_addressOf h with hzero | ⟨hg, htake⟩ | ⟨hg, hg', htake⟩ <;> rename_i rest
  · have hglobal : test globalPattern (':' :: rest) = false := rfl
    have hexcluded : Excluded (.v6 groups) := by
      refine .inl fun hrange ↦ ?_
      rw [List.getD_eq_getElem?_getD, ← List.head?_eq_getElem?, hzero] at hrange
      exact absurd hrange.1 (by decide)
    have hspelled : ¬ Misspelled (':' :: rest) := by
      rintro (⟨more, heq⟩ | ⟨r, g, more, heq, -⟩)
      · exact absurd (List.cons_eq_cons.mp heq).1 (by decide)
      · exact absurd (List.cons_eq_cons.mp heq).1 (by decide)
    simp [hglobal, hexcluded, hspelled]
  · obtain ⟨digits, hdigits, rfl⟩ := group_eq_some hg
    obtain ⟨hfirst, hsecond⟩ := getD_of_take htake
    rw [patterns_of_group hdigits, specialPatterns_any hdigits, misspelled_group hdigits,
      Excluded, hfirst, hsecond]
    refine ⟨decision_iff ⟨fun _ ↦ .inr (.inl ⟨_, rfl⟩), fun _ ↦ by decide⟩ ?_, ?_⟩
    · rw [any_colon]
      exact fun hfalse ↦ absurd hfalse Bool.false_ne_true
    · exact fun hmisspelled ↦ .inr (.inl ⟨hmisspelled.1, by decide⟩)
  · obtain ⟨digits, hdigits, rfl⟩ := group_eq_some hg
    obtain ⟨digits', hdigits', rfl⟩ := group_eq_some hg'
    obtain ⟨hfirst, hsecond⟩ := getD_of_take htake
    rw [patterns_of_group hdigits, specialPatterns_any hdigits, misspelled_group hdigits,
      Excluded, hfirst, hsecond]
    have hleft := @left_of_digits _ rest _ hdigits' hg'
    refine ⟨decision_iff ?_ ?_, ?_⟩
    · rw [hleft, any_second_group hdigits', ← and_or_left]
      exact ⟨fun hmem ↦ ⟨hmem, em' _⟩, fun hmem ↦ hmem.1⟩
    · rw [hleft, any_second_group hdigits']
      exact fun hnamed hzero ↦ hnamed.2 hzero.2
    · exact fun hmisspelled ↦ .inr (.inl ⟨hmisspelled.1, (hleft.mp hmisspelled.2).1⟩)

theorem number_of_octet (h : octet s = some g) : number s = g := by
  rw [octet] at h
  split at h
  · rw [number, (Option.filter_eq_some_iff.mp h).1]
    rfl
  · cases h

theorem publicNumbers_iff {a b c : ℕ} : publicNumbers a b c = true ↔ ¬ ExcludedNumbers a b c := by
  rw [ExcludedNumbers]
  simp only [publicNumbers, Bool.and_eq_true, decide_eq_true_eq, Bool.not_eq_true',
    Bool.and_eq_false_iff, Bool.or_eq_false_iff, decide_eq_false_iff_not]
  grind

/-- An IPv4 address has one spelling, which the check takes apart. -/
theorem publicNetworkAddress_v4 {t : List Char} {a b c d : ℕ}
    (h : addressOf t = some (.v4 a b c d)) :
    publicNetworkAddress t = true ↔ ¬ Excluded (.v4 a b c d) := by
  have hv4 : isIP t = 4 := by rw [isIP, h]
  obtain ⟨p, q, r, s, hparts, hp, hq, hr, hs⟩ := splitOn_of_addressOf h
  rw [publicNetworkAddress, hv4, if_pos rfl, hparts]
  simp only [List.map_cons, number_of_octet hp, number_of_octet hq, number_of_octet hr, publicParts]
  exact publicNumbers_iff

/-- The first number of an IPv4 address has at most three digits. -/
theorem not_misspelled_v4 {t : List Char} {a b c d : ℕ} (h : addressOf t = some (.v4 a b c d)) :
    ¬ Misspelled t := by
  obtain ⟨p, q, r, s, hparts, hp, -⟩ := splitOn_of_addressOf h
  have hshort : p.length ≤ 3 := by
    rw [octet] at hp
    split at hp
    · rename_i hlength
      exact hlength.2.1
    · cases hp
  intro hmisspelled
  obtain ⟨more, hmore⟩ : ∃ more, t = "2001:".toList ++ more := by
    rcases hmisspelled with ⟨more, rfl⟩ | ⟨u, g, more, rfl, -⟩
    · exact ⟨':' :: more, rfl⟩
    · exact ⟨('0' :: u) ++ ':' :: more, rfl⟩
  rw [of_splitOn hparts] at hmore
  have hpoint : ∀ n < 4, ("2001:".toList ++ more)[n]? ≠ some '.' := by
    intro n hn
    interval_cases n <;> simp
  refine hpoint p.length (by omega) ?_
  rw [← hmore, List.getElem?_append_right le_rfl, Nat.sub_self]
  rfl

/-- What the check answers: it goes by the address except where the text is misspelled, and what is
misspelled is excluded. -/
theorem publicNetworkAddress_iff {t : List Char} {a : IpAddress} (h : addressOf t = some a) :
    (publicNetworkAddress t = true ↔ ¬ Excluded a ∨ Misspelled t) ∧
      (Misspelled t → Excluded a) := by
  cases a with
  | v4 a b c d =>
    have hspelled := not_misspelled_v4 h
    simp [publicNetworkAddress_v4 h, hspelled]
  | v6 groups => exact publicNetworkAddress_v6 h

/-- **The address decides, unless it is misspelled.** Two spellings of one address get the same
answer, and `false` for an excluded one, exactly if neither writes a special group behind 2001 with
leading zeros or leaves it out. -/
theorem same_answer_iff {t t' : List Char} {a : IpAddress} (h : addressOf t = some a)
    (h' : addressOf t' = some a) :
    (publicNetworkAddress t = publicNetworkAddress t' ∧
        (Excluded a → publicNetworkAddress t = false)) ↔ ¬ Misspelled t ∧ ¬ Misspelled t' := by
  obtain ⟨hanswer, hexcluded⟩ := publicNetworkAddress_iff h
  obtain ⟨hanswer', hexcluded'⟩ := publicNetworkAddress_iff h'
  constructor
  · rintro ⟨hsame, hfalse⟩
    refine ⟨fun hmisspelled ↦ ?_, fun hmisspelled ↦ ?_⟩
    · have htrue := hanswer.mpr (.inr hmisspelled)
      rw [hfalse (hexcluded hmisspelled)] at htrue
      exact Bool.false_ne_true htrue
    · have htrue := hanswer'.mpr (.inr hmisspelled)
      rw [← hsame, hfalse (hexcluded' hmisspelled)] at htrue
      exact Bool.false_ne_true htrue
  · -- Spelled as they should be, both answers tell whether the one address is excluded.
    rintro ⟨hspelled, hspelled'⟩
    rw [or_iff_left hspelled] at hanswer
    rw [or_iff_left hspelled'] at hanswer'
    refine ⟨Bool.eq_iff_iff.mpr (hanswer.trans hanswer'.symm), fun hin ↦ ?_⟩
    exact Bool.eq_false_iff.mpr fun htrue ↦ hanswer.mp htrue hin

/-- Two spellings of a documentation address, neither with a leading zero. -/
theorem same_answer_documentation :
    (publicNetworkAddress "2001:db8::1".toList = publicNetworkAddress "2001:DB8:0::0:1".toList ∧
        (Excluded (.v6 [0x2001, 0xdb8, 0, 0, 0, 0, 0, 1]) →
          publicNetworkAddress "2001:db8::1".toList = false)) ↔
      ¬ Misspelled "2001:db8::1".toList ∧ ¬ Misspelled "2001:DB8:0::0:1".toList :=
  same_answer_iff (by decide) (by decide)

/-- The documentation address 2001:db8::1 with a leading zero, and the first address of 2001::/32 in
its shortest spelling, are let through. -/
theorem misspelled_let_through :
    addressOf "2001:0db8::1".toList = addressOf "2001:db8::1".toList ∧
      publicNetworkAddress "2001:db8::1".toList = false ∧
      publicNetworkAddress "2001:0db8::1".toList = true ∧
      addressOf "2001::1".toList = addressOf "2001:0::1".toList ∧
      publicNetworkAddress "2001:0::1".toList = false ∧
      publicNetworkAddress "2001::1".toList = true := by
  decide

end RatThings.Network
