import Mathlib.Data.List.Forall2
import Mathlib.Data.Nat.Notation
import Mathlib.Tactic.IntervalCases

/-!
# Internet addresses in text

An IPv4 address is four decimal numbers without leading zeros. An IPv6 address is eight groups of up
to four hexadecimal digits. Leading zeros of a group may be written or not, one run of zero groups
may be left out, the last two groups may be written as an IPv4 address, and a zone may follow. So an
IPv4 address has one spelling and an IPv6 address many. What all spellings have in common is how the
first two groups stand at their beginning, each in front of a colon.
-/

namespace Concurrent

/-- An address by its numbers. -/
inductive IpAddress where
  | v4 (a b c d : ℕ)
  | v6 (groups : List ℕ)
deriving DecidableEq

namespace IpText

/-! ## Digits and groups -/

/-- The value of a hexadecimal digit. -/
def hexDigit (c : Char) : Option ℕ :=
  if '0' ≤ c ∧ c ≤ '9' then some (c.toNat - '0'.toNat)
  else if 'a' ≤ c ∧ c ≤ 'f' then some (c.toNat - 'a'.toNat + 10)
  else if 'A' ≤ c ∧ c ≤ 'F' then some (c.toNat - 'A'.toNat + 10)
  else none

/-- The number that digits write to a base. -/
def ofDigits (base : ℕ) (digits : List ℕ) : ℕ := digits.foldl (fun n d ↦ n * base + d) 0

/-- The digits of a group, up to four of them. -/
def groupDigits (s : List Char) : Option (List ℕ) :=
  if 1 ≤ s.length ∧ s.length ≤ 4 then s.mapM hexDigit else none

/-- The value of a group. -/
def group (s : List Char) : Option ℕ := (groupDigits s).map (ofDigits 16)

/-- The value of a decimal digit. -/
def decimalDigit (c : Char) : Option ℕ :=
  if '0' ≤ c ∧ c ≤ '9' then some (c.toNat - '0'.toNat) else none

/-- A number up to 255 without leading zeros. -/
def octet (s : List Char) : Option ℕ :=
  if 1 ≤ s.length ∧ s.length ≤ 3 ∧ (s.head? = some '0' → s.length = 1) then
    ((s.mapM decimalDigit).map (ofDigits 10)).filter (· ≤ 255)
  else none

/-! ## Addresses -/

/-- Four numbers with points between them. -/
def v4 (s : List Char) : Option (ℕ × ℕ × ℕ × ℕ) :=
  match s.splitOn '.' with
  | [a, b, c, d] => do return (← octet a, ← octet b, ← octet c, ← octet d)
  | _ => none

/-- Groups, the last of which may be an IPv4 address in the place of two. -/
def groupsOf : List (List Char) → Option (List ℕ)
  | [] => some []
  | [last] =>
    match group last with
    | some g => some [g]
    | none => (v4 last).map fun (a, b, c, d) ↦ [a * 256 + b, c * 256 + d]
  | s :: rest => do return (← group s) :: (← groupsOf rest)

/-- What stands before and behind the first two colons in a row. -/
def leftOut : List Char → Option (List Char × List Char)
  | ':' :: ':' :: rest => some ([], rest)
  | c :: rest => (leftOut rest).map fun (before, behind) ↦ (c :: before, behind)
  | [] => none

/-- The groups before a gap. -/
def groupsBefore (s : List Char) : Option (List ℕ) :=
  if s = [] then some [] else (s.splitOn ':').mapM group

/-- The groups behind a gap. -/
def groupsBehind (s : List Char) : Option (List ℕ) :=
  if s = [] then some [] else groupsOf (s.splitOn ':')

/-- The eight groups of an IPv6 address. -/
def v6 (s : List Char) : Option (List ℕ) :=
  match leftOut s with
  | none => (groupsOf (s.splitOn ':')).filter (·.length = 8)
  | some (before, behind) => do
    let first ← groupsBefore before
    let last ← groupsBehind behind
    if first.length + last.length ≤ 7 then
      some (first ++ List.replicate (8 - (first.length + last.length)) 0 ++ last)
    else none

/-- The characters of a zone. -/
def zoneCharacter (c : Char) : Bool :=
  c.isDigit || c.isLower || c.isUpper || c = '-' || c = '.' || c = ':'

/-- The address without its zone, where the zone is one. -/
def withoutZone (s : List Char) : Option (List Char) :=
  match s.dropWhile (· ≠ '%') with
  | [] => some s
  | _ :: zone =>
    if zone ≠ [] ∧ zone.all zoneCharacter then some (s.takeWhile (· ≠ '%')) else none

/-- The address that a text spells, if it spells one. -/
def addressOf (s : List Char) : Option IpAddress :=
  match v4 s with
  | some (a, b, c, d) => some (.v4 a b c d)
  | none => ((withoutZone s).bind v6).map .v6

/-! ## Reading digits -/

variable {s t rest : List Char} {groups digits : List ℕ} {c : Char} {d g : ℕ}

/-- The hexadecimal digits, upper and lower case. -/
def hexDigits : List (Char × ℕ) :=
  [('0', 0), ('1', 1), ('2', 2), ('3', 3), ('4', 4), ('5', 5), ('6', 6), ('7', 7), ('8', 8),
    ('9', 9), ('a', 10), ('b', 11), ('c', 12), ('d', 13), ('e', 14), ('f', 15), ('A', 10),
    ('B', 11), ('C', 12), ('D', 13), ('E', 14), ('F', 15)]

theorem mem_hexDigits (h : hexDigit c = some d) : (c, d) ∈ hexDigits := by
  have hbounds : 48 ≤ c.toNat ∧ c.toNat ≤ 102 := by
    rw [hexDigit] at h
    simp only [Char.le_def, UInt32.le_iff_toNat_le] at h
    have hval : c.toNat = c.val.toNat := rfl
    rw [hval]
    split_ifs at h with h₀ h₁ h₂
    · exact ⟨h₀.1, h₀.2.trans (by decide)⟩
    · exact ⟨le_trans (by decide) h₁.1, h₁.2⟩
    · exact ⟨le_trans (by decide) h₂.1, h₂.2.trans (by decide)⟩
  obtain ⟨hlow, hhigh⟩ := hbounds
  have hchar : c = Char.ofNat c.toNat := (Char.ofNat_toNat c).symm
  generalize c.toNat = n at hlow hhigh hchar
  subst hchar
  interval_cases n <;> revert h <;> revert d <;> decide

theorem hexDigit_lt (h : hexDigit c = some d) : d < 16 := by
  have hall : ∀ p ∈ hexDigits, p.2 < 16 := by decide
  exact hall _ (mem_hexDigits h)

/-- In lower case a digit is written in one way. -/
theorem toLower_eq (h : hexDigit c = some d) : c.toLower = Nat.digitChar d := by
  have hall : ∀ p ∈ hexDigits, p.1.toLower = Nat.digitChar p.2 := by decide
  exact hall _ (mem_hexDigits h)

theorem digitChar_inj {d d' : ℕ} (hd : d < 16) (hd' : d' < 16)
    (h : Nat.digitChar d = Nat.digitChar d') : d = d' := by
  have hall : ∀ d < 16, ∀ d' < 16, Nat.digitChar d = Nat.digitChar d' → d = d' := by decide
  exact hall d hd d' hd' h

/-- Only the digits above nine have two cases. -/
theorem eq_digitChar (h : hexDigit c = some d) (hd : d < 10) : c = Nat.digitChar d := by
  have hall : ∀ p ∈ hexDigits, p.2 < 10 → p.1 = Nat.digitChar p.2 := by decide
  exact hall _ (mem_hexDigits h) hd

/-- The text of a group is one to four digits. -/
structure Digits (s : List Char) (digits : List ℕ) : Prop where
  length : 1 ≤ digits.length ∧ digits.length ≤ 4
  chars : List.Forall₂ (fun c d ↦ hexDigit c = some d) s digits

theorem forall₂_of_mapM (h : s.mapM hexDigit = some digits) :
    List.Forall₂ (fun c d ↦ hexDigit c = some d) s digits := by
  induction s generalizing digits with
  | nil =>
    obtain rfl : [] = digits := by simpa using h
    exact .nil
  | cons c s ih =>
    simp only [List.mapM_cons, Option.bind_eq_bind, Option.bind_eq_some_iff, Option.pure_def,
      Option.some.injEq] at h
    obtain ⟨d, hd, digits, hdigits, rfl⟩ := h
    exact .cons hd (ih hdigits)

theorem group_eq_some (h : group s = some g) : ∃ digits,
    Digits s digits ∧ g = ofDigits 16 digits := by
  obtain ⟨digits, hdigits, rfl⟩ := Option.map_eq_some_iff.mp h
  rw [groupDigits] at hdigits
  split at hdigits
  · rename_i hlength
    have hchars := forall₂_of_mapM hdigits
    exact ⟨digits, ⟨hchars.length_eq ▸ hlength, hchars⟩, rfl⟩
  · cases hdigits

theorem Digits.lt (h : Digits s digits) : ∀ d ∈ digits, d < 16 := by
  obtain ⟨-, hchars⟩ := h
  induction hchars with
  | nil => simp
  | cons hd _ ih => exact List.forall_mem_cons.mpr ⟨hexDigit_lt hd, ih⟩

theorem Digits.lower (h : Digits s digits) : s.map Char.toLower = digits.map Nat.digitChar := by
  obtain ⟨-, hchars⟩ := h
  induction hchars with
  | nil => rfl
  | cons hd _ ih => rw [List.map_cons, List.map_cons, toLower_eq hd, ih]

/-- A group of digits below ten has one spelling. -/
theorem Digits.eq_of_lt (h : Digits s digits) (hlt : ∀ d ∈ digits, d < 10) :
    s = digits.map Nat.digitChar := by
  obtain ⟨-, hchars⟩ := h
  induction hchars with
  | nil => rfl
  | cons hd _ ih =>
    rw [List.forall_mem_cons] at hlt
    rw [List.map_cons, eq_digitChar hd hlt.1, ih hlt.2]

/-- A group begins with a zero where its digits do. -/
theorem Digits.zero_cons {more : List ℕ} (h : Digits s (0 :: more)) (hmore : more ≠ []) :
    ∃ r, s = '0' :: r ∧ r ≠ [] := by
  obtain ⟨-, hchars⟩ := h
  cases hchars with
  | cons hd hrest =>
    refine ⟨_, by rw [eq_digitChar hd (by decide)]; rfl, ?_⟩
    rintro rfl
    exact hmore (List.forall₂_nil_left_iff.mp hrest)

theorem Digits.of_zero_cons {r : List Char} (h : Digits ('0' :: r) digits) (hr : r ≠ []) :
    ∃ more, digits = 0 :: more ∧ more ≠ [] := by
  obtain ⟨-, hchars⟩ := h
  cases hchars with
  | cons hd hrest =>
    obtain rfl := Option.some.inj hd
    refine ⟨_, rfl, ?_⟩
    rintro rfl
    exact hr (List.forall₂_nil_right_iff.mp hrest)

/-- A list of up to four digits. -/
theorem Digits.cases (h : Digits s digits) :
    (∃ a, digits = [a] ∧ a < 16) ∨ (∃ a b, digits = [a, b] ∧ a < 16 ∧ b < 16) ∨
      (∃ a b c, digits = [a, b, c] ∧ a < 16 ∧ b < 16 ∧ c < 16) ∨
      ∃ a b c d, digits = [a, b, c, d] ∧ a < 16 ∧ b < 16 ∧ c < 16 ∧ d < 16 := by
  have hlt := h.lt
  obtain ⟨⟨hpos, hle⟩, -⟩ := h
  match digits, hpos, hle, hlt with
  | [a], _, _, hlt => exact .inl ⟨a, rfl, by simpa using hlt⟩
  | [a, b], _, _, hlt => exact .inr (.inl ⟨a, b, rfl, by simpa using hlt⟩)
  | [a, b, c], _, _, hlt => exact .inr (.inr (.inl ⟨a, b, c, rfl, by simpa using hlt⟩))
  | [a, b, c, d], _, _, hlt => exact .inr (.inr (.inr ⟨a, b, c, d, rfl, by simpa using hlt⟩))

theorem Digits.colon_notMem_lower (h : Digits s digits) : ':' ∉ s.map Char.toLower := by
  rw [h.lower]
  intro hmem
  obtain ⟨d, hd, hcolon⟩ := List.mem_map.mp hmem
  have hall : ∀ d < 16, Nat.digitChar d ≠ ':' := by decide
  exact hall d (h.lt d hd) hcolon

theorem Digits.colon_notMem (h : Digits s digits) : ':' ∉ s := fun hmem ↦
  h.colon_notMem_lower (List.mem_map.mpr ⟨':', hmem, by decide⟩)

/-- Two texts of digits are the same in lower case where the digits are. -/
theorem Digits.lower_eq_iff {digits' : List ℕ} (h : Digits s digits) (hlt : ∀ d ∈ digits', d < 16) :
    s.map Char.toLower = digits'.map Nat.digitChar ↔ digits = digits' := by
  rw [h.lower]
  refine ⟨fun heq ↦ ?_, fun heq ↦ by rw [heq]⟩
  have hall := h.lt
  clear h
  induction digits generalizing digits' with
  | nil => exact (List.map_eq_nil_iff.mp heq.symm).symm
  | cons d digits ih =>
    cases digits' with
    | nil => cases heq
    | cons d' digits' =>
      obtain ⟨hhead, htail⟩ := List.cons_eq_cons.mp heq
      rw [List.forall_mem_cons] at hall hlt
      rw [digitChar_inj hall.1 hlt.1 hhead, ih hlt.2 htail hall.2]

/-! ## How the first groups stand -/

/-- How the first two groups of an address stand at its beginning. -/
inductive Begins (groups : List ℕ) : List Char → Prop where
  /-- The first group is left out. -/
  | neither {rest : List Char} : groups.head? = some 0 → Begins groups (':' :: rest)
  /-- The second group is left out. -/
  | first {g : ℕ} {s rest : List Char} : group s = some g → groups.take 2 = [g, 0] →
      Begins groups (s ++ ':' :: ':' :: rest)
  | both {g g' : ℕ} {s s' rest : List Char} : group s = some g → group s' = some g' →
      groups.take 2 = [g, g'] → Begins groups (s ++ ':' :: (s' ++ ':' :: rest))

theorem Begins.append (h : Begins groups s) (more : List Char) : Begins groups (s ++ more) := by
  cases h with
  | neither h => exact .neither h
  | first hg htake =>
    rw [List.append_assoc]
    exact .first hg htake
  | both hg hg' htake =>
    rw [List.append_assoc, List.cons_append, List.append_assoc]
    exact .both hg hg' htake

theorem leftOut_eq {before behind : List Char} (h : leftOut s = some (before, behind)) :
    s = before ++ ':' :: ':' :: behind := by
  fun_induction leftOut s generalizing before with
  | case1 rest =>
    obtain ⟨rfl, rfl⟩ := Prod.ext_iff.mp (Option.some.inj h)
    rfl
  | case2 c rest _ ih =>
    obtain ⟨⟨before', behind'⟩, hrest, heq⟩ := Option.map_eq_some_iff.mp h
    obtain ⟨rfl, rfl⟩ := Prod.ext_iff.mp heq
    rw [ih hrest]
    rfl
  | case3 => cases h

/-- A text up to its first separator. -/
theorem of_splitOn {first second : List Char} {more : List (List Char)}
    (h : s.splitOn c = first :: second :: more) :
    s = first ++ c :: [c].intercalate (second :: more) := by
  have hjoin : [c].intercalate (s.splitOn c) = s := List.intercalate_splitOn c
  rw [h, List.intercalate_cons_cons] at hjoin
  simpa using hjoin.symm

/-- One part is at most two groups. -/
theorem length_groupsOf_singleton {last : List Char} (h : groupsOf [last] = some groups) :
    groups.length ≤ 2 := by
  rw [groupsOf] at h
  split at h
  · obtain rfl := Option.some.inj h
    exact Nat.le_succ 1
  · obtain ⟨⟨a, b, c, d⟩, -, rfl⟩ := Option.map_eq_some_iff.mp h
    exact le_rfl

/-- Of several parts, the first is a group. -/
theorem groupsOf_cons_cons {first second : List Char} {more : List (List Char)}
    (h : groupsOf (first :: second :: more) = some groups) :
    ∃ g rest, group first = some g ∧ groupsOf (second :: more) = some rest ∧
      groups = g :: rest := by
  simp only [groupsOf, Option.bind_eq_bind, Option.bind_eq_some_iff, Option.pure_def,
    Option.some.injEq] at h
  obtain ⟨g, hg, rest, hrest, rfl⟩ := h
  exact ⟨g, rest, hg, hrest, rfl⟩

/-- Eight groups without a gap. -/
theorem begins_of_groupsOf (h : groupsOf (s.splitOn ':') = some groups)
    (hlength : groups.length = 8) : Begins groups s := by
  rcases hparts : s.splitOn ':' with _ | ⟨first, _ | ⟨second, _ | ⟨third, more⟩⟩⟩
  · exact absurd hparts (List.splitOn_ne_nil _ _)
  · rw [hparts] at h
    have hshort := length_groupsOf_singleton h
    omega
  · rw [hparts] at h
    obtain ⟨g, rest, -, hrest, rfl⟩ := groupsOf_cons_cons h
    have hshort := length_groupsOf_singleton hrest
    rw [List.length_cons] at hlength
    omega
  · rw [hparts] at h
    obtain ⟨g, _, hg, hrest, rfl⟩ := groupsOf_cons_cons h
    obtain ⟨g', _, hg', -, rfl⟩ := groupsOf_cons_cons hrest
    rw [of_splitOn hparts, List.intercalate_cons_cons, List.append_assoc]
    exact .both hg hg' rfl

/-- A gap behind at least one group. -/
theorem begins_of_gap {before behind : List Char} {first last : List ℕ}
    (hfirst : (before.splitOn ':').mapM group = some first)
    (hlength : first.length + last.length ≤ 7) :
    Begins (first ++ List.replicate (8 - (first.length + last.length)) 0 ++ last)
      (before ++ ':' :: ':' :: behind) := by
  rcases hparts : before.splitOn ':' with _ | ⟨part, _ | ⟨part', more⟩⟩
  · exact absurd hparts (List.splitOn_ne_nil _ _)
  · have hjoin : [':'].intercalate (before.splitOn ':') = before := List.intercalate_splitOn ':'
    rw [hparts, List.intercalate_singleton] at hjoin
    subst hjoin
    rw [hparts] at hfirst
    simp only [List.mapM_cons, List.mapM_nil, Option.bind_eq_bind, Option.bind_eq_some_iff,
      Option.pure_def, Option.some.injEq] at hfirst
    obtain ⟨g, hg, _, rfl, rfl⟩ := hfirst
    have hgap : 8 - ([g].length + last.length) = 8 - ([g].length + last.length) - 1 + 1 := by omega
    rw [hgap, List.replicate_succ]
    exact .first hg rfl
  · rw [of_splitOn hparts]
    rw [hparts] at hfirst
    simp only [List.mapM_cons, Option.bind_eq_bind, Option.bind_eq_some_iff, Option.pure_def,
      Option.some.injEq] at hfirst
    obtain ⟨g, hg, _, ⟨g', hg', _, _, rfl⟩, rfl⟩ := hfirst
    cases more with
    | nil =>
      have htext : part ++ ':' :: [':'].intercalate [part'] ++ ':' :: ':' :: behind =
          part ++ ':' :: (part' ++ ':' :: ':' :: behind) := by simp
      rw [htext]
      refine .both hg hg' ?_
      rfl
    | cons part'' more =>
      have htext : part ++ ':' :: [':'].intercalate (part' :: part'' :: more) ++
          ':' :: ':' :: behind = part ++ ':' :: (part' ++ ':' ::
            ([':'].intercalate (part'' :: more) ++ ':' :: ':' :: behind)) := by
        simp [List.intercalate_cons_cons]
      rw [htext]
      refine .both hg hg' ?_
      rfl

theorem begins_of_v6 (h : v6 s = some groups) : Begins groups s := by
  rw [v6] at h
  cases hgap : leftOut s with
  | none =>
    rw [hgap] at h
    obtain ⟨hgroups, hlength⟩ := Option.filter_eq_some_iff.mp h
    exact begins_of_groupsOf hgroups (by simpa using hlength)
  | some gap =>
    obtain ⟨before, behind⟩ := gap
    rw [hgap] at h
    rw [leftOut_eq hgap]
    simp only [Option.bind_eq_bind, Option.bind_eq_some_iff] at h
    obtain ⟨first, hfirst, last, hlast, h⟩ := h
    split at h
    · rename_i hlength
      obtain rfl := Option.some.inj h
      rw [groupsBefore] at hfirst
      split at hfirst
      · rename_i hempty
        obtain rfl := Option.some.inj hfirst
        rw [hempty]
        rw [List.length_nil, Nat.zero_add] at hlength
        have hzeros : 8 - (([] : List ℕ).length + last.length) = 8 - last.length - 1 + 1 := by
          rw [List.length_nil]
          omega
        rw [hzeros, List.replicate_succ]
        exact .neither rfl
      · exact begins_of_gap hfirst hlength
    · cases h

/-- Every spelling of an IPv6 address begins with its first two groups, or leaves them out. -/
theorem begins_of_addressOf (h : addressOf s = some (.v6 groups)) : Begins groups s := by
  rw [addressOf] at h
  split at h
  · cases h
  · obtain ⟨groups', hgroups, heq⟩ := Option.map_eq_some_iff.mp h
    obtain rfl : groups' = groups := by simpa using heq
    obtain ⟨body, hbody, hv6⟩ := Option.bind_eq_some_iff.mp hgroups
    have hbegins := begins_of_v6 hv6
    rw [withoutZone] at hbody
    split at hbody
    · obtain rfl := Option.some.inj hbody
      exact hbegins
    · split at hbody
      · obtain rfl := Option.some.inj hbody
        have hjoin := List.takeWhile_append_dropWhile (p := (· ≠ '%')) (l := s)
        rw [← hjoin]
        exact hbegins.append _
      · cases hbody

/-- The one spelling of an IPv4 address. -/
theorem splitOn_of_addressOf {a b c d : ℕ} (h : addressOf s = some (.v4 a b c d)) :
    ∃ p q r t, s.splitOn '.' = [p, q, r, t] ∧ octet p = some a ∧ octet q = some b ∧
      octet r = some c ∧ octet t = some d := by
  rw [addressOf] at h
  split at h
  · rename_i a' b' c' d' hv4
    obtain ⟨rfl, rfl, rfl, rfl⟩ : a' = a ∧ b' = b ∧ c' = c ∧ d' = d := by simpa using h
    rw [v4] at hv4
    split at hv4
    · rename_i p q r t hparts
      simp only [Option.bind_eq_bind, Option.bind_eq_some_iff, Option.pure_def, Option.some.injEq,
        Prod.mk.injEq] at hv4
      obtain ⟨_, hp, _, hq, _, hr, _, ht, rfl, rfl, rfl, rfl⟩ := hv4
      exact ⟨p, q, r, t, hparts, hp, hq, hr, ht⟩
    · cases hv4
  · obtain ⟨groups, -, heq⟩ := Option.map_eq_some_iff.mp h
    cases heq

end IpText

end Concurrent
