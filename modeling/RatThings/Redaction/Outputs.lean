import RatThings.Library.Json
import RatThings.Library.Overlap
import RatThings.Redaction.Patterns

/-!
# Redacting outputs

`redactText` replaces the patterns in a text and, where asked to, the beginning of a pattern that
the text ends with, since the rest of the secret may follow in the next text. `redactOutput` does so
for every string of a JSON value and for its keys, numbering names that become the same.

## What is withheld

`Withheld` says what an output promises about the value it was made from: no string has a pattern
in it, nor has a key or ends a string with the beginning of a pattern where that was asked for,
and what had nothing to hide is as it was. `Apart` is assumed of patterns and replacements
throughout: what is written instead of a secret does not make up another one.

The promise is broken in two ways, and `redactOutput_withholds_iff` says that there is no other one.
The last replacement of a text may cut the longest beginning of a pattern, so that a shorter one
behind it is overlooked (`Uncut`). And a key that ends in the beginning of a pattern may be
completed by the number its name is given (`Uncompleted`).

## How it is proved

The scanner of the library says what the replacements make of a text: `Scans` is one pass from left
to right, and `Untouched` are the ends of the text that no replacement reaches into. A beginning of
a pattern at the end of what was written is such an end (`untouched_iff_suffix`), so the question
about the output is one about the text. For a value the induction is over the JSON tree, and the
names of an object are those of its keys in their order, each with the number that was free when it
came.
-/

namespace RatThings.Redaction

open Concurrent Replacement

/-! ## One text -/

section

variable (patterns : List RedactionPattern)

/-- `new Map(patterns.map(pattern => [pattern.value, pattern.replacement]))` -/
def replacements : OrderedMap Utf16 Utf16 :=
  OrderedMap.ofList (patterns.map fun p ↦ (p.value, p.replacement))

/-- `text.replace(expression, match => { count++; return replacements.get(match)!; })`. The
expression has the patterns as its alternatives, and `skip` units of the last match are still
passed over. -/
def replaceFrom : ℕ → Utf16 → Utf16 × ℕ
  | _, [] => ([], 0)
  | skip + 1, _ :: text => replaceFrom skip text
  | 0, u :: text =>
    match patterns.find? fun p ↦ p.Heads (u :: text) with
    | none =>
      let rest := replaceFrom 0 text
      (u :: rest.1, rest.2)
    | some p =>
      let rest := replaceFrom (p.value.length - 1) text
      ((((replacements patterns).get? p.value).getD []) ++ rest.1, rest.2 + 1)

/-- The loop over the lengths of a beginning of `value`. -/
def trailingLength (text value : Utf16) : ℕ → Option ℕ
  | 0 => none
  | length + 1 =>
    if length + 1 < minSecretScanLength then none
    else if value.take (length + 1) <:+ text then some (length + 1)
    else trailingLength text value length

/-- What each pattern contributes to the choice of `suffix`: a length and the replacement. -/
def suffixes (text : Utf16) : List (ℕ × Utf16) :=
  patterns.flatMap fun p ↦
    ((trailingLength text p.value (min (p.value.length - 1) text.length)).map
      fun length ↦ (length, p.replacement)).toList

def redactText (text : Utf16) (trailingPrefixes : Bool) : Utf16 × ℕ :=
  if patterns.isEmpty then (text, 0)
  else
    let replaced := replaceFrom patterns 0 text
    if trailingPrefixes then
      match ((suffixes patterns text).insertionSort fun a b ↦ b.1 ≤ a.1).head? with
      | none => replaced
      | some suffix =>
        if text.drop (text.length - suffix.1) <:+ replaced.1 then
          (replaced.1.take (replaced.1.length - suffix.1) ++ suffix.2, replaced.2 + 1)
        else replaced
    else replaced

/-! ## A JSON value -/

structure RedactOptions where
  trailingPrefixes : Bool := false
  keys : Bool := false

/-- `[n]` -/
def label (n : ℕ) : Utf16 := Utf16.ascii ('[' :: Nat.toDigits 10 n ++ [']'])

/-- The names that are tried for an entry, one after the other. -/
def numbered (text : Utf16) : ℕ → Utf16
  | 0 => text
  | n + 1 => text ++ label (n + 1)

/-- `for (let index = 1; entries.has(name); index++)`: the number of the name that is free. -/
def freeIndex (taken : List Utf16) (text : Utf16) : ℕ → ℕ → ℕ
  | 0, index => index
  | rounds + 1, index =>
    if numbered text index ∈ taken then freeIndex taken text rounds (index + 1) else index

/-- The name of an entry behind those that have the names `taken`. -/
def freeName (taken : List Utf16) (text : Utf16) : Utf16 :=
  numbered text (freeIndex taken text taken.length 0)

variable (options : RedactOptions)

def redactKey (key : Utf16) : Utf16 × ℕ :=
  if options.keys then redactText patterns key false else (key, 0)

mutual

def visit : Json Utf16 → Json Utf16 × ℕ
  | .null => (.null, 0)
  | .bool value => (.bool value, 0)
  | .number value => (.number value, 0)
  | .string text =>
    let result := redactText patterns text options.trailingPrefixes
    (.string result.1, result.2)
  | .array items =>
    let result := visitItems items
    (.array result.1, result.2)
  | .object fields =>
    let result := visitFields [] fields
    (.object result.1, result.2)

def visitItems : List (Json Utf16) → List (Json Utf16) × ℕ
  | [] => ([], 0)
  | item :: items =>
    let first := visit item
    let rest := visitItems items
    (first.1 :: rest.1, first.2 + rest.2)

/-- The loop over the entries of an object, with the names that `entries` has already. -/
def visitFields (taken : List Utf16) : List (Utf16 × Json Utf16) → List (Utf16 × Json Utf16) × ℕ
  | [] => ([], 0)
  | (key, part) :: fields =>
    let redacted := redactKey patterns options key
    let name := freeName taken redacted.1
    let value := visit part
    let rest := visitFields (taken ++ [name]) fields
    ((name, value.1) :: rest.1, redacted.2 + value.2 + rest.2)

end

def redactOutput (input : Json Utf16) : Json Utf16 × ℕ := visit patterns options input

end

/-! ## What is withheld

A trailing prefix has eight units at least, which is the length from which on a text is scanned for
secrets, and it is not the whole pattern. -/

section

variable (patterns : List RedactionPattern)

/-- A text ends with the beginning of a pattern: with eight units of it or more, but not with all of
them. -/
structure TrailingPrefix (text u : Utf16) : Prop where
  ends : u <:+ text
  long : minSecretScanLength ≤ u.length
  begins : ∃ p ∈ patterns, u <+: p.value ∧ u ≠ p.value

/-- What an output promises about the value it was made from. -/
structure Withheld (options : RedactOptions) (value output : Json Utf16) : Prop where
  texts : ∀ text ∈ output.texts, Free patterns text
  names : options.keys = true → ∀ names ∈ output.keyLists, ∀ name ∈ names, Free patterns name
  ends : options.trailingPrefixes = true → ∀ text ∈ output.texts, ∀ p ∈ patterns,
    ∀ u, u <+: p.value → minSecretScanLength ≤ u.length → ¬ u <:+ text
  shape : output.shape = value.shape
  entries : ∀ names ∈ output.keyLists, names.Nodup
  unchanged : List.Forall₂ (fun text text' ↦ Free patterns text →
    (options.trailingPrefixes = true → ∀ u, ¬ TrailingPrefix patterns text u) → text' = text)
    value.texts output.texts

/-- No trailing prefix is cut by the last replacement while a shorter one lies behind it: either
all of them lie there or none does. -/
def Uncut (text : Utf16) : Prop :=
  (∃ u, TrailingPrefix patterns text u ∧ Untouched patterns text u) →
    ∀ u, TrailingPrefix patterns text u → Untouched patterns text u

/-- The keys of an object, each with the number that its name gets. -/
def nameNumbers (redacted : Utf16 → Utf16) : List Utf16 → List Utf16 → List (Utf16 × ℕ)
  | _, [] => []
  | taken, key :: keys =>
    let n := freeIndex taken (redacted key) taken.length 0
    (key, n) :: nameNumbers redacted (taken ++ [numbered (redacted key) n]) keys

/-- No key ends, behind its last replacement, in the beginning of a pattern that the number of its
name completes. -/
def Uncompleted (keys : List Utf16) : Prop :=
  ∀ entry ∈ nameNumbers (fun key ↦ (redactText patterns key false).1) [] keys, entry.2 ≠ 0 →
    ∀ u, Untouched patterns entry.1 u → Free patterns (u ++ label entry.2)

end

/-! ## What `redactText` writes

First what the loop replaces, then what it finds at the end of the result, and last what both come
to: no pattern is left in the text, and no beginning of one at its end unless one was cut. -/

section

variable {patterns : List RedactionPattern} {text value u : Utf16} {length : ℕ}

theorem get?_replacements (h : Scannable patterns) {p : RedactionPattern} (hp : p ∈ patterns) :
    (replacements patterns).get? p.value = some p.replacement := by
  have hkeys : (patterns.map fun p ↦ (p.value, p.replacement)).map Prod.fst =
      patterns.map Replacement.value := by simp
  exact OrderedMap.get?_ofList (hkeys ▸ h.nodup) (List.mem_map.mpr ⟨p, hp, rfl⟩)

/-- The replacement of all matches reads the text to its end. -/
theorem scans_replaceFrom (h : Scannable patterns) (skip : ℕ) (text : Utf16) :
    Scans patterns (text.drop skip) (replaceFrom patterns skip text).1
      (replaceFrom patterns skip text).2 [] := by
  induction text generalizing skip with
  | nil =>
    rw [List.drop_nil, replaceFrom]
    exact .stop []
  | cons u text ih =>
    rcases skip with _ | skip
    · rw [List.drop_zero, replaceFrom, find?_eq_longest h.sorted]
      cases hlongest : longest patterns (u :: text) with
      | none => exact .keep hlongest (ih 0)
      | some p =>
        obtain ⟨hp, rest, hrest⟩ := longest_mem hlongest
        obtain ⟨v, value, hvalue⟩ := List.exists_cons_of_ne_nil (h.nonempty p hp)
        have hdrop : text.drop (p.value.length - 1) = rest := by
          rw [hvalue, List.cons_append] at hrest
          rw [hvalue, List.length_cons, Nat.add_sub_cancel, ← (List.cons.inj hrest).2,
            List.drop_left]
        have hread := ih (p.value.length - 1)
        rw [hdrop] at hread
        dsimp only
        rw [get?_replacements h hp, Option.getD_some, ← hrest]
        rw [← hrest] at hlongest
        exact .replace hlongest hread
    · exact ih skip

/-- The loop over the lengths finds the longest beginning of the pattern with which the text
ends. -/
theorem trailingLength_eq_some {n : ℕ} (h : trailingLength text value length = some n) :
    minSecretScanLength ≤ n ∧ n ≤ length ∧ value.take n <:+ text := by
  induction length with
  | zero => cases h
  | succ length ih =>
    rw [trailingLength] at h
    split at h
    · cases h
    · rename_i hlong
      split at h
      · rename_i hends
        obtain rfl := Option.some.inj h
        exact ⟨Nat.not_lt.mp hlong, le_rfl, hends⟩
      · obtain ⟨hmin, hle, hends⟩ := ih h
        exact ⟨hmin, Nat.le_succ_of_le hle, hends⟩

theorem exists_trailingLength {n : ℕ} (hmin : minSecretScanLength ≤ n) (hle : n ≤ length)
    (hends : value.take n <:+ text) :
    ∃ m, trailingLength text value length = some m ∧ n ≤ m := by
  induction length with
  | zero =>
    have hzero : n = 0 := Nat.le_zero.mp hle
    rw [hzero] at hmin
    exact absurd hmin (by decide)
  | succ length ih =>
    rw [trailingLength, if_neg (by omega)]
    split
    · exact ⟨length + 1, rfl, hle⟩
    · rename_i hnot
      have hne : n ≠ length + 1 := by
        rintro rfl
        exact hnot hends
      exact ih (by omega)

theorem mem_suffixes {n : ℕ} {replacement : Utf16} :
    (n, replacement) ∈ suffixes patterns text ↔ ∃ p ∈ patterns, p.replacement = replacement ∧
      trailingLength text p.value (min (p.value.length - 1) text.length) = some n := by
  simp only [suffixes, List.mem_flatMap, Option.mem_toList, Option.map_eq_some_iff, Prod.mk.injEq]
  constructor
  · rintro ⟨p, hp, n, hn, rfl, rfl⟩
    exact ⟨p, hp, rfl, hn⟩
  · rintro ⟨p, hp, rfl, hn⟩
    exact ⟨p, hp, n, hn, rfl, rfl⟩

/-- A candidate for `suffix` is a trailing prefix. -/
theorem trailingPrefix_of_mem {n : ℕ} {replacement : Utf16}
    (h : (n, replacement) ∈ suffixes patterns text) :
    n ≤ text.length ∧ TrailingPrefix patterns text (text.drop (text.length - n)) ∧
      ∃ p ∈ patterns, p.replacement = replacement := by
  obtain ⟨p, hp, hreplacement, hn⟩ := mem_suffixes.mp h
  obtain ⟨hmin, hle, hends⟩ := trailingLength_eq_some hn
  have hshort : n < p.value.length := by
    have : 8 ≤ n := hmin
    omega
  have hlength : (p.value.take n).length = n := by
    rw [List.length_take]
    omega
  have hdrop : text.drop (text.length - n) = p.value.take n := by
    have hsuffix := List.suffix_iff_eq_drop.mp hends
    rw [hlength] at hsuffix
    exact hsuffix.symm
  refine ⟨by omega, ⟨List.drop_suffix _ _, ?_, p, hp, ?_, ?_⟩, p, hp, hreplacement⟩
  · rw [hdrop, hlength]
    exact hmin
  · rw [hdrop]
    exact List.take_prefix _ _
  · rw [hdrop]
    intro hsame
    rw [hsame] at hlength
    omega

/-- Each trailing prefix is at most as long as some candidate. -/
theorem exists_mem_suffixes (h : TrailingPrefix patterns text u) :
    ∃ n replacement, (n, replacement) ∈ suffixes patterns text ∧ u.length ≤ n := by
  obtain ⟨p, hp, hu, hne⟩ := h.begins
  have hlt : u.length < p.value.length :=
    lt_of_le_of_ne hu.length_le fun hsame ↦ hne (hu.eq_of_length hsame)
  have htake : p.value.take u.length = u := (List.prefix_iff_eq_take.mp hu).symm
  have htext := h.ends.length_le
  obtain ⟨m, hm, hle⟩ : ∃ m, trailingLength text p.value
      (min (p.value.length - 1) text.length) = some m ∧ u.length ≤ m :=
    exists_trailingLength h.long (by omega) (htake.symm ▸ h.ends)
  exact ⟨m, p.replacement, mem_suffixes.mpr ⟨p, hp, rfl, hm⟩, hle⟩

/-- The choice of `suffix` is a candidate, and none is longer. -/
theorem head?_suffixes {suffix : ℕ × Utf16}
    (h : ((suffixes patterns text).insertionSort fun a b ↦ b.1 ≤ a.1).head? = some suffix) :
    suffix ∈ suffixes patterns text ∧
      ∀ other ∈ suffixes patterns text, other.1 ≤ suffix.1 := by
  have htotal : Std.Total fun a b : ℕ × Utf16 ↦ b.1 ≤ a.1 := ⟨fun a b ↦ Nat.le_total _ _⟩
  have htrans : IsTrans (ℕ × Utf16) fun a b ↦ b.1 ≤ a.1 := ⟨fun a b c hab hbc ↦ hbc.trans hab⟩
  have hperm := List.perm_insertionSort (fun a b : ℕ × Utf16 ↦ b.1 ≤ a.1) (suffixes patterns text)
  have hsorted := List.pairwise_insertionSort (fun a b : ℕ × Utf16 ↦ b.1 ≤ a.1)
    (suffixes patterns text)
  obtain ⟨rest, hlist⟩ := List.head?_eq_some_iff.mp h
  rw [hlist] at hperm hsorted
  refine ⟨hperm.mem_iff.mp List.mem_cons_self, fun other hother ↦ ?_⟩
  rcases List.mem_cons.mp (hperm.mem_iff.mpr hother) with rfl | hrest
  · exact le_rfl
  · exact (List.pairwise_cons.mp hsorted).1 other hrest

/-- Either the replaced text stays, and a trailing prefix is part of one that it does not end with,
or the longest trailing prefix is cut off and a replacement put in its place. -/
theorem redactText_cases (hne : patterns ≠ []) (text : Utf16) (trailingPrefixes : Bool) :
    ((redactText patterns text trailingPrefixes).1 = (replaceFrom patterns 0 text).1 ∧
      (trailingPrefixes = true → ∀ u, TrailingPrefix patterns text u →
        ∃ w, TrailingPrefix patterns text w ∧ ¬ w <:+ (replaceFrom patterns 0 text).1)) ∨
    (trailingPrefixes = true ∧ ∃ front w, ∃ q ∈ patterns, TrailingPrefix patterns text w ∧
      (∀ u, TrailingPrefix patterns text u → u <:+ w) ∧
      (replaceFrom patterns 0 text).1 = front ++ w ∧
      (redactText patterns text trailingPrefixes).1 = front ++ q.replacement) := by
  have hempty : patterns.isEmpty = false := by simpa using hne
  simp only [redactText, hempty, Bool.false_eq_true, if_false]
  cases trailingPrefixes with
  | false => exact .inl ⟨rfl, (nomatch ·)⟩
  | true =>
    simp only [if_true]
    cases hhead : ((suffixes patterns text).insertionSort fun a b ↦ b.1 ≤ a.1).head? with
    | none =>
      refine .inl ⟨rfl, fun _ u hu ↦ ?_⟩
      obtain ⟨n, replacement, hmem, -⟩ := exists_mem_suffixes hu
      rw [List.head?_eq_none_iff] at hhead
      have hin := (List.perm_insertionSort (fun a b : ℕ × Utf16 ↦ b.1 ≤ a.1) _).mem_iff.mpr hmem
      rw [hhead] at hin
      cases hin
    | some suffix =>
      obtain ⟨n, replacement⟩ := suffix
      obtain ⟨hmem, hlongest⟩ := head?_suffixes hhead
      obtain ⟨hle, hw, q, hq, rfl⟩ := trailingPrefix_of_mem hmem
      dsimp only
      split
      · rename_i hends
        obtain ⟨front, hfront⟩ := hends
        have hlength : (text.drop (text.length - n)).length = n := by
          rw [List.length_drop]
          omega
        refine .inr ⟨trivial, front, _, q, hq, hw, fun u hu ↦ ?_, hfront.symm, ?_⟩
        · obtain ⟨m, _, hm, hum⟩ := exists_mem_suffixes hu
          exact List.suffix_of_suffix_length_le hu.ends hw.ends
            (hlength.symm ▸ hum.trans (hlongest _ hm))
        · have htake : (replaceFrom patterns 0 text).1.take
              ((replaceFrom patterns 0 text).1.length - n) = front := by
            rw [← hfront, List.length_append, hlength, Nat.add_sub_cancel, List.take_left]
          rw [htake]
      · rename_i hnot
        exact .inl ⟨rfl, fun _ _ _ ↦ ⟨_, hw, hnot⟩⟩

variable (h : Scannable patterns)
  (hapart : ∀ p ∈ patterns, ∀ q ∈ patterns, Apart p.value q.replacement)

include h

theorem scans_replaced (text : Utf16) : Scans patterns text (replaceFrom patterns 0 text).1
    (replaceFrom patterns 0 text).2 [] :=
  scans_replaceFrom h 0 text

include hapart

theorem free_redactText (text : Utf16) (trailingPrefixes : Bool) :
    Free patterns (redactText patterns text trailingPrefixes).1 := by
  intro p hp
  have hfree := (scans_replaced h text).free hapart
  rcases redactText_cases (List.ne_nil_of_mem hp) text trailingPrefixes with
    ⟨hout, -⟩ | ⟨-, front, w, q, hq, -, -, hreplaced, hout⟩
  · rw [hout]
    exact hfree p hp
  · intro hinside
    rw [hout, ← List.append_nil q.replacement] at hinside
    rcases (hapart p hp q hq).infix_append hinside with hfront | hnil
    · rw [hreplaced] at hfree
      exact hfree p hp (hfront.trans (List.prefix_append front w).isInfix)
    · exact h.nonempty p hp (List.eq_nil_of_infix_nil hnil)

theorem untouched_iff_suffix {text u : Utf16} (hu : TrailingPrefix patterns text u) :
    Untouched patterns text u ↔ u <:+ (replaceFrom patterns 0 text).1 := by
  obtain ⟨p, hp, hbegins, -⟩ := hu.begins
  have hne : u ≠ [] := by
    rintro rfl
    exact absurd hu.long (by decide)
  exact ((scans_replaced h text).suffix_iff_untouched hapart hp hne hbegins).symm

/-- The written text ends with no long beginning of a pattern just where the last replacement cuts
none that it should not. -/
theorem ends_redactText_iff (text : Utf16) :
    (∀ p ∈ patterns, ∀ u, u <+: p.value → minSecretScanLength ≤ u.length →
      ¬ u <:+ (redactText patterns text true).1) ↔ Uncut patterns text := by
  by_cases hne : patterns = []
  · subst hne
    refine ⟨fun _ ⟨u, hu, _⟩ ↦ ?_, fun _ p hp ↦ by cases hp⟩
    obtain ⟨p, hp, -⟩ := hu.begins
    cases hp
  rcases redactText_cases hne text true with
    ⟨hout, hlonger⟩ | ⟨-, front, w, q, hq, hw, hlongest, hreplaced, hout⟩
  · rw [hout]
    constructor
    · rintro hends ⟨u, hu, huntouched⟩
      obtain ⟨p, hp, hbegins, -⟩ := hu.begins
      exact absurd ((untouched_iff_suffix h hapart hu).mp huntouched) (hends p hp u hbegins hu.long)
    · intro huncut p hp u hbegins hlong hends
      have hnonempty : u ≠ [] := by
        rintro rfl
        exact absurd hlong (by decide)
      have huntouched :=
        ((scans_replaced h text).suffix_iff_untouched hapart hp hnonempty hbegins).mp hends
      obtain ⟨_, _, hreached⟩ := huntouched.reached
      have hu : TrailingPrefix patterns text u := by
        refine ⟨hreached.suffix, hlong, p, hp, hbegins, ?_⟩
        rintro rfl
        exact (scans_replaced h text).free hapart p hp hends.isInfix
      -- The longest trailing prefix is cut although `u` is not.
      obtain ⟨w, hw, hnot⟩ := hlonger rfl u hu
      exact hnot ((untouched_iff_suffix h hapart hw).mp (huncut ⟨u, hu, huntouched⟩ w hw))
  · have huntouched : Untouched patterns text w :=
      (untouched_iff_suffix h hapart hw).mpr (hreplaced ▸ List.suffix_append front w)
    refine iff_of_true (fun p hp u hbegins hlong hends ↦ ?_)
      fun _ u hu ↦ huntouched.of_suffix (hlongest u hu)
    have hnonempty : u ≠ [] := by
      rintro rfl
      exact absurd hlong (by decide)
    rw [hout, ← List.append_nil q.replacement] at hends
    have hnil := (hapart p hp q hq).suffix_append hnonempty hbegins hends
    exact hnonempty (List.suffix_nil.mp hnil)

omit hapart

/-- A text without a pattern and without a trailing prefix stays. -/
theorem redactText_of_free {text : Utf16} {trailingPrefixes : Bool} (hfree : Free patterns text)
    (hnone : trailingPrefixes = true → ∀ u, ¬ TrailingPrefix patterns text u) :
    (redactText patterns text trailingPrefixes).1 = text := by
  by_cases hne : patterns = []
  · subst hne
    rfl
  have hkept : Free patterns (text ++ []) := by rwa [List.append_nil]
  have hscan := hkept.scans
  rw [List.append_nil] at hscan
  have hreplaced := ((scans_replaced h text).unique h.nonempty hscan).1
  rcases redactText_cases hne text trailingPrefixes with ⟨hout, -⟩ | ⟨htrue, _, w, _, _, hw, -⟩
  · rw [hout, hreplaced]
  · exact absurd hw (hnone htrue w)

end

/-! ## Names

The names of an object differ, and each is the redacted key or a numbered one. Whether a number
is given depends on the names before it, so the induction is on the keys with the names taken so
far. -/

theorem toNat_of_mem_toDigits {n : ℕ} {c : Char} (hc : c ∈ Nat.toDigits 10 n) : c.toNat < 0x80 := by
  have hdigit := Nat.isDigit_of_mem_toDigits (by decide) (by decide) hc
  have hle := (Char.isDigit_iff_toNat.mp hdigit).2
  exact lt_of_le_of_lt hle (by decide)

theorem label_injective : Function.Injective label := by
  intro m n h
  have hsmall : ∀ n, ∀ c ∈ '[' :: Nat.toDigits 10 n ++ [']'], c.toNat < 0x80 := by
    intro n c hc
    rw [List.cons_append, List.mem_cons, List.mem_append, List.mem_singleton] at hc
    rcases hc with rfl | hc | rfl
    · decide
    · exact toNat_of_mem_toDigits hc
    · decide
  have htext := Utf16.ascii_inj (hsmall m) (hsmall n) h
  have hdigits := List.append_cancel_right (List.cons.inj htext).2
  calc
    m = Nat.ofDigitChars 10 (Nat.toDigits 10 m) 0 := Nat.ofDigitChars_ten_toDigits.symm
    _ = Nat.ofDigitChars 10 (Nat.toDigits 10 n) 0 := by rw [hdigits]
    _ = n := Nat.ofDigitChars_ten_toDigits

/-- No name is tried twice. -/
theorem numbered_injective (text : Utf16) : Function.Injective (numbered text) := by
  intro m n h
  rcases m with _ | m <;> rcases n with _ | n
  · rfl
  · exact absurd (List.self_eq_append_right.mp h) (List.cons_ne_nil _ _)
  · exact absurd (List.append_right_eq_self.mp h) (List.cons_ne_nil _ _)
  · exact label_injective (List.append_cancel_left h)

/-- The loop stops at a free name, or each name it has tried is taken. -/
theorem freeIndex_spec (taken : List Utf16) (text : Utf16) (rounds index : ℕ) :
    numbered text (freeIndex taken text rounds index) ∉ taken ∨
      freeIndex taken text rounds index = index + rounds ∧
        ∀ n, index ≤ n → n < index + rounds → numbered text n ∈ taken := by
  induction rounds generalizing index with
  | zero => exact .inr ⟨rfl, fun n hle hlt ↦ absurd hlt (by omega)⟩
  | succ rounds ih =>
    rw [freeIndex]
    split
    · rename_i htaken
      rcases ih (index + 1) with hfree | ⟨hend, hall⟩
      · exact .inl hfree
      · refine .inr ⟨by omega, fun n hle hlt ↦ ?_⟩
        rcases hle.eq_or_lt with rfl | hlt'
        · exact htaken
        · exact hall n hlt' (by omega)
    · rename_i hfree
      exact .inl hfree

/-- The loop ends: among one more name than there are entries, one is free. -/
theorem freeName_notMem (taken : List Utf16) (text : Utf16) : freeName taken text ∉ taken := by
  rcases freeIndex_spec taken text taken.length 0 with hfree | ⟨hend, hall⟩
  · exact hfree
  · intro hlast
    rw [freeName, hend] at hlast
    have hsubset : (List.range (taken.length + 1)).map (numbered text) ⊆ taken := by
      intro name hname
      obtain ⟨n, hn, rfl⟩ := List.mem_map.mp hname
      rcases (Nat.lt_succ_iff.mp (List.mem_range.mp hn)).eq_or_lt with rfl | hlt
      · rwa [Nat.zero_add] at hlast
      · exact hall n (Nat.zero_le n) (by omega)
    have hnodup := (List.nodup_range (n := taken.length + 1)).map (numbered_injective text)
    have hle := (hnodup.subperm hsubset).length_le
    rw [List.length_map, List.length_range] at hle
    omega

/-- The names of an object with these keys. -/
def namesOf (redacted : Utf16 → Utf16) (keys : List Utf16) : List Utf16 :=
  (nameNumbers redacted [] keys).map fun entry ↦ numbered (redacted entry.1) entry.2

theorem nodup_nameNumbers (redacted : Utf16 → Utf16) (taken keys : List Utf16)
    (htaken : taken.Nodup) :
    (taken ++ (nameNumbers redacted taken keys).map
      fun entry ↦ numbered (redacted entry.1) entry.2).Nodup := by
  induction keys generalizing taken with
  | nil => simpa [nameNumbers] using htaken
  | cons key keys ih =>
    have hfree := freeName_notMem taken (redacted key)
    have hmore : (taken ++ [freeName taken (redacted key)]).Nodup :=
      List.nodup_append.mpr ⟨htaken, List.nodup_singleton _, fun a ha b hb ↦ by
        rw [List.mem_singleton] at hb
        rintro rfl
        exact hfree (hb ▸ ha)⟩
    have hall := ih _ hmore
    rwa [List.append_assoc] at hall

/-- No two entries of an object get the same name. -/
theorem nodup_namesOf (redacted : Utf16 → Utf16) (keys : List Utf16) :
    (namesOf redacted keys).Nodup := by
  have hall := nodup_nameNumbers redacted [] keys List.nodup_nil
  rwa [List.nil_append] at hall

/-! ## A whole value

The strings, the keys and the shape of the output, each as a function of those of the value. -/

section

variable (patterns : List RedactionPattern) (options : RedactOptions)

mutual

theorem shape_visit : ∀ value : Json Utf16, (visit patterns options value).1.shape = value.shape
  | .null | .bool _ | .number _ | .string _ => rfl
  | .array items => by
    rw [visit, Json.shape, Json.shape, shape_visitItems items]
  | .object fields => by
    rw [visit, Json.shape, Json.shape, shape_visitFields [] fields]

theorem shape_visitItems : ∀ items : List (Json Utf16),
    Json.shapeOfItems (visitItems patterns options items).1 = Json.shapeOfItems items
  | [] => rfl
  | item :: items => by
    rw [visitItems, Json.shapeOfItems, Json.shapeOfItems, shape_visit item,
      shape_visitItems items]

theorem shape_visitFields : ∀ (taken : List Utf16) (fields : List (Utf16 × Json Utf16)),
    Json.shapeOfFields (visitFields patterns options taken fields).1 = Json.shapeOfFields fields
  | _, [] => rfl
  | taken, (key, part) :: fields => by
    rw [visitFields, Json.shapeOfFields, Json.shapeOfFields, shape_visit part,
      shape_visitFields _ fields]

end

mutual

theorem texts_visit : ∀ value : Json Utf16, (visit patterns options value).1.texts =
    value.texts.map fun text ↦ (redactText patterns text options.trailingPrefixes).1
  | .null | .bool _ | .number _ | .string _ => rfl
  | .array items => by
    rw [visit, Json.texts, Json.texts, texts_visitItems items]
  | .object fields => by
    rw [visit, Json.texts, Json.texts, texts_visitFields [] fields]

theorem texts_visitItems : ∀ items : List (Json Utf16),
    Json.textsOfItems (visitItems patterns options items).1 =
      (Json.textsOfItems items).map fun text ↦
        (redactText patterns text options.trailingPrefixes).1
  | [] => rfl
  | item :: items => by
    rw [visitItems, Json.textsOfItems, Json.textsOfItems, List.map_append, texts_visit item,
      texts_visitItems items]

theorem texts_visitFields : ∀ (taken : List Utf16) (fields : List (Utf16 × Json Utf16)),
    Json.textsOfFields (visitFields patterns options taken fields).1 =
      (Json.textsOfFields fields).map fun text ↦
        (redactText patterns text options.trailingPrefixes).1
  | _, [] => rfl
  | taken, (key, part) :: fields => by
    rw [visitFields, Json.textsOfFields, Json.textsOfFields, List.map_append, texts_visit part,
      texts_visitFields _ fields]

end

theorem names_visitFields (taken : List Utf16) (fields : List (Utf16 × Json Utf16)) :
    (visitFields patterns options taken fields).1.map Prod.fst =
      (nameNumbers (fun key ↦ (redactKey patterns options key).1) taken
        (fields.map Prod.fst)).map fun entry ↦
          numbered (redactKey patterns options entry.1).1 entry.2 := by
  induction fields generalizing taken with
  | nil => rfl
  | cons field fields ih =>
    obtain ⟨key, part⟩ := field
    rw [visitFields, List.map_cons, List.map_cons, nameNumbers, List.map_cons, ih]
    rfl

mutual

theorem keyLists_visit : ∀ value : Json Utf16, (visit patterns options value).1.keyLists =
    value.keyLists.map (namesOf fun key ↦ (redactKey patterns options key).1)
  | .null | .bool _ | .number _ | .string _ => rfl
  | .array items => by
    rw [visit, Json.keyLists, Json.keyLists, keyLists_visitItems items]
  | .object fields => by
    rw [visit, Json.keyLists, Json.keyLists, List.map_cons, keyLists_visitFields [] fields,
      names_visitFields]
    rfl

theorem keyLists_visitItems : ∀ items : List (Json Utf16),
    Json.keyListsOfItems (visitItems patterns options items).1 =
      (Json.keyListsOfItems items).map (namesOf fun key ↦ (redactKey patterns options key).1)
  | [] => rfl
  | item :: items => by
    rw [visitItems, Json.keyListsOfItems, Json.keyListsOfItems, List.map_append,
      keyLists_visit item, keyLists_visitItems items]

theorem keyLists_visitFields : ∀ (taken : List Utf16) (fields : List (Utf16 × Json Utf16)),
    Json.keyListsOfFields (visitFields patterns options taken fields).1 =
      (Json.keyListsOfFields fields).map (namesOf fun key ↦ (redactKey patterns options key).1)
  | _, [] => rfl
  | taken, (key, part) :: fields => by
    rw [visitFields, Json.keyListsOfFields, Json.keyListsOfFields, List.map_append,
      keyLists_visit part, keyLists_visitFields _ fields]

end

end

/-- The names of an output whose keys are redacted. -/
theorem keyLists_redactOutput {options : RedactOptions} (patterns : List RedactionPattern)
    (hkeys : options.keys = true) (value : Json Utf16) :
    (redactOutput patterns options value).1.keyLists =
      value.keyLists.map (namesOf fun key ↦ (redactText patterns key false).1) := by
  have hredacted : (fun key ↦ (redactKey patterns options key).1) =
      fun key ↦ (redactText patterns key false).1 := by
    funext key
    rw [redactKey, if_pos hkeys]
  rw [redactOutput, keyLists_visit, hredacted]

/-! ## When nothing is disclosed

The values at the end are one that is withheld, one in which a beginning is cut, and one whose
numbered key is a secret. -/

section

variable {patterns : List RedactionPattern} (h : Scannable patterns)
  (hapart : ∀ p ∈ patterns, ∀ q ∈ patterns, Apart p.value q.replacement)

include h

/-- Without trailing prefixes, what is written is a reading of the whole text. -/
theorem scans_redactText (text : Utf16) :
    ∃ count, Scans patterns text (redactText patterns text false).1 count [] := by
  by_cases hne : patterns = []
  · subst hne
    have hfree : Free ([] : List RedactionPattern) (text ++ []) := fun p hp ↦ by cases hp
    have hscan := hfree.scans
    rw [List.append_nil] at hscan
    exact ⟨0, hscan⟩
  · rcases redactText_cases hne text false with ⟨hout, -⟩ | ⟨hfalse, -⟩
    · rw [hout]
      exact ⟨_, scans_replaced h text⟩
    · cases hfalse

include hapart

/-- A pattern in a name is one that the number completes. -/
theorem free_numbered_iff (key : Utf16) (n : ℕ) :
    Free patterns (numbered (redactText patterns key false).1 n) ↔
      (n ≠ 0 → ∀ u, Untouched patterns key u → Free patterns (u ++ label n)) := by
  obtain ⟨count, hscan⟩ := scans_redactText h key
  rcases n with _ | n
  · exact iff_of_true (hscan.free hapart) fun hne ↦ absurd rfl hne
  · constructor
    · intro hname _ u hu p hp hinside
      exact hname p hp ((hscan.infix_append_iff hapart hp).mpr ⟨u, hu, hinside⟩)
    · intro hall p hp hinside
      obtain ⟨u, hu, hinside⟩ := (hscan.infix_append_iff hapart hp).mp hinside
      exact hall (Nat.succ_ne_zero n) u hu p hp hinside

theorem free_namesOf_iff (keys : List Utf16) :
    (∀ name ∈ namesOf (fun key ↦ (redactText patterns key false).1) keys, Free patterns name) ↔
      Uncompleted patterns keys := by
  rw [namesOf, List.forall_mem_map]
  exact forall₂_congr fun entry _ ↦ free_numbered_iff h hapart entry.1 entry.2

end

/-- Where no pattern overlaps a replacement, an output withholds the secrets just if no string of
the value has a trailing prefix cut by its last replacement with another one behind it, and no key
is completed to a pattern by the number of its name. -/
theorem redactOutput_withholds_iff {secrets : List SecretReplacement}
    {patterns : List RedactionPattern} (hok : secretRedactionPatterns secrets = .ok patterns)
    (hapart : ∀ p ∈ patterns, ∀ q ∈ patterns, Apart p.value q.replacement)
    (options : RedactOptions) (value : Json Utf16) :
    Withheld patterns options value (redactOutput patterns options value).1 ↔
      (options.trailingPrefixes = true → ∀ text ∈ value.texts, Uncut patterns text) ∧
        (options.keys = true → ∀ keys ∈ value.keyLists, Uncompleted patterns keys) := by
  have h := secretRedactionPatterns_scannable hok
  have htexts := texts_visit patterns options value
  constructor
  · intro hwithheld
    refine ⟨fun htrailing text htext ↦ ?_, fun hkeys keys hmem ↦ ?_⟩
    · -- Each text of the value is one of those that were written, and so is each list of keys.
      rw [← ends_redactText_iff h hapart]
      refine hwithheld.ends htrailing _ ?_
      rw [redactOutput, htexts, htrailing]
      exact List.mem_map_of_mem htext
    · rw [← free_namesOf_iff h hapart]
      refine hwithheld.names hkeys _ ?_
      rw [keyLists_redactOutput patterns hkeys]
      exact List.mem_map_of_mem hmem
  · rintro ⟨huncut, huncompleted⟩
    constructor
    case texts =>
      rw [redactOutput, htexts, List.forall_mem_map]
      exact fun text _ ↦ free_redactText h hapart text _
    case names =>
      intro hkeys
      rw [keyLists_redactOutput patterns hkeys, List.forall_mem_map]
      exact fun keys hmem ↦ (free_namesOf_iff h hapart keys).mpr (huncompleted hkeys keys hmem)
    case ends =>
      intro htrailing
      rw [redactOutput, htexts, htrailing, List.forall_mem_map]
      exact fun text htext ↦ (ends_redactText_iff h hapart text).mpr (huncut htrailing text htext)
    case shape => exact shape_visit patterns options value
    case entries =>
      rw [redactOutput, keyLists_visit, List.forall_mem_map]
      exact fun keys _ ↦ nodup_namesOf _ keys
    case unchanged =>
      rw [redactOutput, htexts, List.forall₂_map_right_iff, List.forall₂_same]
      exact fun text _ hfree hnone ↦ redactText_of_free h hfree hnone

/-- `[REDACTED]` -/
def sampleMark : List Char := ['[', 'R', 'E', 'D', 'A', 'C', 'T', 'E', 'D', ']']

/-- Secrets with one replacement. -/
def hidden (secrets : List (List Char)) : List SecretReplacement :=
  secrets.map fun secret ↦ ⟨Utf16.ascii secret, Utf16.ascii sampleMark⟩

/-- The patterns of secrets that can be written in a URL. -/
def patternsOf (secrets : List SecretReplacement) : List RedactionPattern :=
  (secretRedactionPatterns secrets).toOption.getD []

/-- `password` -/
def samplePassword : List Char := ['p', 'a', 's', 's', 'w', 'o', 'r', 'd']

/-- `0123456789` -/
def sampleToken : List Char := ['0', '1', '2', '3', '4', '5', '6', '7', '8', '9']

def sampleSecrets : List SecretReplacement := hidden [samplePassword, sampleToken]

/-- An object with a secret in a key and in a string, and with a string that ends with the first
nine digits of the other one. -/
def sampleOutput : Json Utf16 :=
  .object [(Utf16.ascii samplePassword, .array [.string (Utf16.ascii ('=' :: samplePassword)),
    .string (Utf16.ascii ('=' :: sampleToken.dropLast))])]

theorem redactOutput_withholds_sample :
    (redactOutput (patternsOf sampleSecrets) { trailingPrefixes := true, keys := true }
      sampleOutput).1 = .object [(Utf16.ascii sampleMark,
        .array [.string (Utf16.ascii ('=' :: sampleMark)),
          .string (Utf16.ascii ('=' :: sampleMark))])] ∧
    Withheld (patternsOf sampleSecrets) { trailingPrefixes := true, keys := true } sampleOutput
      (redactOutput (patternsOf sampleSecrets) { trailingPrefixes := true, keys := true }
        sampleOutput).1 := by
  have hok : secretRedactionPatterns sampleSecrets = .ok (patternsOf sampleSecrets) := by rfl
  have hnames : nameNumbers (fun key ↦ (redactText (patternsOf sampleSecrets) key false).1) []
      [Utf16.ascii samplePassword] = [(Utf16.ascii samplePassword, 0)] := by decide +kernel
  refine ⟨by decide +kernel, (redactOutput_withholds_iff hok (by decide +kernel) _ _).mpr
    ⟨fun _ text htext ↦ ?_, fun _ keys hkeys ↦ ?_⟩⟩
  · have htexts : sampleOutput.texts =
        [Utf16.ascii ('=' :: samplePassword), Utf16.ascii ('=' :: sampleToken.dropLast)] := by
      rfl
    rw [htexts, List.mem_cons, List.mem_singleton] at htext
    rcases htext with rfl | rfl
    · have hnone : ∀ u ∈ (Utf16.ascii ('=' :: samplePassword)).tails,
          minSecretScanLength ≤ u.length → ∀ p ∈ patternsOf sampleSecrets, u <+: p.value →
            u = p.value := by
        decide +kernel
      rintro ⟨u, hu, -⟩
      obtain ⟨p, hp, hbegins, hne⟩ := hu.begins
      exact absurd (hnone u ((List.mem_tails u _).mpr hu.ends) hu.long p hp hbegins) hne
    · -- Nothing of the text is replaced.
      have hfree : Free (patternsOf sampleSecrets) (Utf16.ascii ('=' :: sampleToken.dropLast)) := by
        decide +kernel
      exact fun _ u hu ↦ (Untouched.of_free hfree).of_suffix hu.ends
  · obtain rfl : keys = [Utf16.ascii samplePassword] := List.mem_singleton.mp hkeys
    intro entry hentry hne
    rw [hnames] at hentry
    obtain rfl := List.mem_singleton.mp hentry
    exact absurd rfl hne

/-- `AAAABBBB`, `BBBBCCCCCCCCZ` and `CCCCCCCCY` -/
def cutSecrets : List SecretReplacement :=
  hidden [.replicate 4 'A' ++ .replicate 4 'B', .replicate 4 'B' ++ .replicate 8 'C' ++ ['Z'],
    .replicate 8 'C' ++ ['Y']]

/-- The first secret with the beginning of the others behind it. -/
def cutOutput : Json Utf16 :=
  .string (Utf16.ascii (.replicate 4 'A' ++ .replicate 4 'B' ++ .replicate 8 'C'))

/-- `user id` -/
def sampleUser : List Char := ['u', 's', 'e', 'r', ' ', 'i', 'd']

/-- `PASSWORD` -/
def sampleCapitals : List Char := ['P', 'A', 'S', 'S', 'W', 'O', 'R', 'D']

/-- `password`, `PASSWORD` and `user id[1]` -/
def completedSecrets : List SecretReplacement :=
  hidden [samplePassword, sampleCapitals, sampleUser ++ ['[', '1', ']']]

/-- Two keys of an object that are the same once the secrets are replaced. -/
def completedOutput : Json Utf16 :=
  .object [(Utf16.ascii (samplePassword ++ sampleUser), .null),
    (Utf16.ascii (sampleCapitals ++ sampleUser), .null)]

/-- No pattern overlaps a replacement, yet the longest trailing prefix begins within a secret and a
shorter one stays; and a key that gets a number is a secret with it. -/
theorem redactOutput_discloses :
    (secretRedactionPatterns cutSecrets = .ok (patternsOf cutSecrets) ∧
      (∀ p ∈ patternsOf cutSecrets, ∀ q ∈ patternsOf cutSecrets, Apart p.value q.replacement) ∧
      ¬ Withheld (patternsOf cutSecrets) { trailingPrefixes := true } cutOutput
        (redactOutput (patternsOf cutSecrets) { trailingPrefixes := true } cutOutput).1) ∧
    secretRedactionPatterns completedSecrets = .ok (patternsOf completedSecrets) ∧
      (∀ p ∈ patternsOf completedSecrets, ∀ q ∈ patternsOf completedSecrets,
        Apart p.value q.replacement) ∧
      ¬ Withheld (patternsOf completedSecrets) { keys := true } completedOutput
        (redactOutput (patternsOf completedSecrets) { keys := true } completedOutput).1 := by
  refine ⟨⟨by decide +kernel, by decide +kernel, fun h ↦ ?_⟩, by decide +kernel,
    by decide +kernel, fun h ↦ ?_⟩
  · have hout : (redactOutput (patternsOf cutSecrets) { trailingPrefixes := true } cutOutput).1 =
        .string (Utf16.ascii (sampleMark ++ .replicate 8 'C')) := by decide +kernel
    rw [hout] at h
    have hp : (⟨Utf16.ascii (.replicate 8 'C' ++ ['Y']), Utf16.ascii sampleMark⟩ :
        RedactionPattern) ∈ patternsOf cutSecrets := by decide +kernel
    exact h.ends rfl _ List.mem_cons_self _ hp (Utf16.ascii (.replicate 8 'C'))
      (by decide) (by decide) (by decide)
  · have hout : (redactOutput (patternsOf completedSecrets) { keys := true } completedOutput).1 =
        .object [(Utf16.ascii (sampleMark ++ sampleUser), .null),
          (Utf16.ascii (sampleMark ++ sampleUser ++ ['[', '1', ']']), .null)] := by decide +kernel
    rw [hout] at h
    have hp : (⟨Utf16.ascii (sampleUser ++ ['[', '1', ']']), Utf16.ascii sampleMark⟩ :
        RedactionPattern) ∈ patternsOf completedSecrets := by decide +kernel
    exact h.names rfl _ List.mem_cons_self _ (List.mem_cons_of_mem _ List.mem_cons_self) _ hp
      (by decide)

end RatThings.Redaction
