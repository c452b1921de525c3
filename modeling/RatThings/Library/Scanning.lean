import Mathlib.Data.List.MinMax
import Mathlib.Data.List.Sort

/-!
# Replacing patterns from left to right

A text is read once from its beginning. Where no pattern stands, one letter is kept; where one
does, the longest is replaced and reading goes on behind it. `Scans` says so one position at a
time and with the text behind it present, so that a reading of the beginning of a text and a reading
of the rest can be put together, which is what makes a text that arrives in pieces tractable.
-/

namespace Concurrent

/-- A text to be replaced, and what stands for it. -/
structure Replacement (α : Type) where
  value : List α
  replacement : List α
deriving DecidableEq

namespace Replacement

variable {α : Type}

/-- The pattern stands at the beginning of the text. -/
def Heads (p : Replacement α) (text : List α) : Prop := p.value <+: text

instance [DecidableEq α] (p : Replacement α) (text : List α) : Decidable (p.Heads text) :=
  inferInstanceAs (Decidable (p.value <+: text))

/-- Longer patterns first, and as listed among those of one length. -/
def byLength (patterns : List (Replacement α)) : List (Replacement α) :=
  patterns.insertionSort fun p q ↦ q.value.length ≤ p.value.length

variable {patterns : List (Replacement α)} {p q : Replacement α} {text more : List α}

/-- Of two patterns of one length, only one can stand at a place. -/
theorem eq_of_heads (hp : p.Heads text) (hq : q.Heads text)
    (hlength : p.value.length = q.value.length) : p.value = q.value :=
  (List.prefix_of_prefix_length_le hp hq hlength.le).eq_of_length hlength

/-- What a pattern needs to see is its own length. -/
theorem heads_append (hlength : p.value.length ≤ text.length) :
    p.Heads (text ++ more) ↔ p.Heads text := by
  refine ⟨fun h ↦ ?_, fun h ↦ h.trans (List.prefix_append text more)⟩
  exact List.prefix_of_prefix_length_le h (List.prefix_append text more) hlength

theorem mem_byLength : p ∈ byLength patterns ↔ p ∈ patterns :=
  (List.perm_insertionSort _ patterns).mem_iff

theorem byLength_sorted :
    (byLength patterns).Pairwise fun p q ↦ q.value.length ≤ p.value.length := by
  have : Std.Total fun p q : Replacement α ↦ q.value.length ≤ p.value.length :=
    ⟨fun p q ↦ Nat.le_total _ _⟩
  have : IsTrans (Replacement α) fun p q ↦ q.value.length ≤ p.value.length :=
    ⟨fun p q r hpq hqr ↦ hqr.trans hpq⟩
  exact List.pairwise_insertionSort _ patterns

/-! ## The longest pattern at a place -/

variable [DecidableEq α]

/-- The pattern to replace at the beginning of a text: the first of the longest ones there. -/
def longest (patterns : List (Replacement α)) (text : List α) : Option (Replacement α) :=
  (patterns.filter fun p ↦ p.Heads text).argmax fun p ↦ p.value.length

theorem longest_mem (h : longest patterns text = some p) : p ∈ patterns ∧ p.Heads text := by
  have hmem := List.argmax_mem (Option.mem_def.mpr h)
  simpa using hmem

theorem longest_eq_none : longest patterns text = none ↔ ∀ p ∈ patterns, ¬ p.Heads text := by
  simp [longest]

/-- A choice among patterns that all fit into the text does not depend on what follows. -/
theorem longest_append (hfits : ∀ p ∈ patterns, p.value.length ≤ text.length) :
    longest patterns (text ++ more) = longest patterns text := by
  have hsame : (patterns.filter fun p ↦ p.Heads (text ++ more)) =
      patterns.filter fun p ↦ p.Heads text :=
    List.filter_congr fun p hp ↦ by simpa using heads_append (hfits p hp)
  rw [longest, hsame, longest]

/-- Sorting a pattern in among the others puts it before those that are not longer. -/
theorem find?_orderedInsert {l : List (Replacement α)}
    (hl : l.Pairwise fun p q ↦ q.value.length ≤ p.value.length) (hp : p.Heads text) :
    (l.orderedInsert (fun p q ↦ q.value.length ≤ p.value.length) p).find? (fun q ↦ q.Heads text) =
      match l.find? (fun q ↦ q.Heads text) with
      | none => some p
      | some q => if p.value.length < q.value.length then some q else some p := by
  induction l with
  | nil => simp [hp]
  | cons q l ih =>
    rw [List.pairwise_cons] at hl
    rw [List.orderedInsert_cons]
    by_cases hle : q.value.length ≤ p.value.length
    · rw [if_pos hle, List.find?_cons_of_pos (by simpa using hp)]
      -- Every pattern behind `p` is at most as long.
      cases hfound : (q :: l).find? fun q ↦ q.Heads text with
      | none => rfl
      | some r =>
        have hr : r.value.length ≤ p.value.length := by
          rcases List.mem_cons.mp (List.mem_of_find?_eq_some hfound) with rfl | hmem
          · exact hle
          · exact (hl.1 r hmem).trans hle
        simp [Nat.not_lt.mpr hr]
    · rw [if_neg hle]
      by_cases hq : q.Heads text
      · rw [List.find?_cons_of_pos (by simpa using hq),
          List.find?_cons_of_pos (by simpa using hq)]
        simp [Nat.lt_of_not_le hle]
      · rw [List.find?_cons_of_neg (by simpa using hq),
          List.find?_cons_of_neg (by simpa using hq), ih hl.2]

theorem find?_orderedInsert_of_not {l : List (Replacement α)} (hp : ¬ p.Heads text) :
    (l.orderedInsert (fun p q ↦ q.value.length ≤ p.value.length) p).find? (fun q ↦ q.Heads text) =
      l.find? fun q ↦ q.Heads text := by
  induction l with
  | nil => simp [hp]
  | cons q l ih =>
    rw [List.orderedInsert_cons]
    split
    · rw [List.find?_cons_of_neg (by simpa using hp)]
    · simp only [List.find?_cons, ih]

/-- The first of the sorted patterns at a place is the longest one there. -/
theorem find?_byLength :
    (byLength patterns).find? (fun p ↦ p.Heads text) = longest patterns text := by
  induction patterns with
  | nil => rfl
  | cons p patterns ih =>
    have hsorted := @byLength_sorted _ patterns
    change (List.orderedInsert _ p (byLength patterns)).find? _ = _
    by_cases hp : p.Heads text
    · have hfilter : ((p :: patterns).filter fun p ↦ p.Heads text) =
          p :: patterns.filter fun p ↦ p.Heads text := List.filter_cons_of_pos (by simpa using hp)
      rw [find?_orderedInsert hsorted hp, longest, hfilter, List.argmax_cons]
      rw [ih, longest]
      cases (patterns.filter fun p ↦ p.Heads text).argmax fun p ↦ p.value.length <;> rfl
    · have hfilter : ((p :: patterns).filter fun p ↦ p.Heads text) =
          patterns.filter fun p ↦ p.Heads text := List.filter_cons_of_neg (by simpa using hp)
      rw [find?_orderedInsert_of_not hp, longest, hfilter]
      exact ih

/-- Among patterns that are sorted, the first one at a place is the longest one there. -/
theorem find?_eq_longest (h : patterns.Pairwise fun p q ↦ q.value.length ≤ p.value.length) :
    (patterns.find? fun p ↦ p.Heads text) = longest patterns text := by
  have hsame : byLength patterns = patterns := h.insertionSort_eq
  rw [← find?_byLength, hsame]

end Replacement

/-! ## Scans -/

open Replacement

variable {α : Type} [DecidableEq α] {patterns : List (Replacement α)}

/-- Reading `text` from its beginning writes `out`, makes `count` replacements and leaves `rest`
unread. -/
inductive Scans (patterns : List (Replacement α)) : List α → List α → ℕ → List α → Prop where
  | stop (rest : List α) : Scans patterns rest [] 0 rest
  | keep {a : α} {text out rest : List α} {count : ℕ} :
      longest patterns (a :: text) = none → Scans patterns text out count rest →
      Scans patterns (a :: text) (a :: out) count rest
  | replace {p : Replacement α} {text out rest : List α} {count : ℕ} :
      longest patterns (p.value ++ text) = some p → Scans patterns text out count rest →
      Scans patterns (p.value ++ text) (p.replacement ++ out) (count + 1) rest

namespace Scans

variable {text out out' middle rest : List α} {count count' : ℕ}

/-- Two readings, one after the other. -/
theorem append (first : Scans patterns text out count middle)
    (last : Scans patterns middle out' count' rest) :
    Scans patterns text (out ++ out') (count + count') rest := by
  induction first with
  | stop => simpa using last
  | keep hnone _ ih => exact .keep hnone (ih last)
  | replace hsome _ ih =>
    rw [List.append_assoc, Nat.add_right_comm]
    exact .replace hsome (ih last)

/-! ### One way to read a text to its end -/

theorem of_nil (hvalues : ∀ p ∈ patterns, p.value ≠ []) (h : Scans patterns [] out count rest) :
    out = [] ∧ count = 0 := by
  generalize hempty : ([] : List α) = whole at h
  cases h with
  | stop => exact ⟨hempty, rfl⟩
  | keep => cases hempty
  | replace hsome =>
    exact absurd (List.append_eq_nil_iff.mp hempty.symm).1 (hvalues _ (longest_mem hsome).1)

theorem of_keep {a : α} (hnone : longest patterns (a :: text) = none)
    (h : Scans patterns (a :: text) out count []) :
    ∃ tail, out = a :: tail ∧ Scans patterns text tail count [] := by
  generalize htext : a :: text = whole at h
  cases h with
  | stop => cases htext
  | keep _ h =>
    obtain ⟨rfl, rfl⟩ := List.cons_eq_cons.mp htext
    exact ⟨_, rfl, h⟩
  | replace hsome => rw [← htext, hnone] at hsome; cases hsome

theorem of_replace {p : Replacement α} (hvalue : p.value ≠ [])
    (hsome : longest patterns (p.value ++ text) = some p)
    (h : Scans patterns (p.value ++ text) out count []) :
    ∃ tail before, out = p.replacement ++ tail ∧ count = before + 1 ∧
      Scans patterns text tail before [] := by
  generalize htext : p.value ++ text = whole at h
  cases h with
  | stop => exact absurd (List.append_eq_nil_iff.mp htext).1 hvalue
  | keep hnone => rw [← htext, hsome] at hnone; cases hnone
  | replace hsome' h =>
    rw [← htext, hsome] at hsome'
    obtain rfl := Option.some.inj hsome'
    obtain rfl := List.append_cancel_left htext
    exact ⟨_, _, rfl, rfl, h⟩

/-- Where no pattern is empty, what is written and how often something is replaced is settled by the
text. -/
theorem unique (hvalues : ∀ p ∈ patterns, p.value ≠ []) (h : Scans patterns text out count [])
    (h' : Scans patterns text out' count' []) : out = out' ∧ count = count' := by
  generalize hrest : ([] : List α) = rest at h
  induction h generalizing out' count' with
  | stop rest =>
    subst hrest
    obtain ⟨rfl, rfl⟩ := of_nil hvalues h'
    exact ⟨rfl, rfl⟩
  | keep hnone h ih =>
    obtain ⟨tail, rfl, htail⟩ := of_keep hnone h'
    obtain ⟨rfl, rfl⟩ := ih htail hrest
    exact ⟨rfl, rfl⟩
  | replace hsome h ih =>
    obtain ⟨tail, before, rfl, rfl, htail⟩ := of_replace (hvalues _ (longest_mem hsome).1) hsome h'
    obtain ⟨rfl, rfl⟩ := ih htail hrest
    exact ⟨rfl, rfl⟩

end Scans

end Concurrent
