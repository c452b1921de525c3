import Mathlib.Data.List.Infix
import RatThings.Library.Scanning

/-!
# Replacements that overlap no pattern

Reading a text replaces the patterns it meets from left to right. When no replacement shares a part
with a pattern, a pattern in what was written would have to stand in a stretch that was kept, and
there it would have been met. What can be said about the end of what was written is said about the
end of the text: the suffixes that the reading reaches and that hold no pattern are `Untouched`.
-/

namespace Concurrent

variable {α : Type}

/-- Two texts that share no part: neither stands in the other, and neither begins as the other
ends. -/
structure Apart (s t : List α) : Prop where
  not_inside : ¬ s <:+: t
  not_holds : ¬ t <:+: s
  not_begins : ∀ u, u ≠ [] → u <+: s → ¬ u <:+ t
  not_ends : ∀ u, u ≠ [] → u <:+ s → ¬ u <+: t

namespace Apart

variable {s t u front rest : List α}

instance [DecidableEq α] : Decidable (Apart s t) :=
  decidable_of_iff (¬ s <:+: t ∧ ¬ t <:+: s ∧ (∀ u ∈ s.inits, u ≠ [] → ¬ u <:+ t) ∧
      ∀ u ∈ s.tails, u ≠ [] → ¬ u <+: t)
    ⟨fun ⟨hinside, hholds, hbegins, hends⟩ ↦ ⟨hinside, hholds,
        fun u hne hu ↦ hbegins u ((List.mem_inits u s).mpr hu) hne,
        fun u hne hu ↦ hends u ((List.mem_tails u s).mpr hu) hne⟩,
      fun h ↦ ⟨h.not_inside, h.not_holds,
        fun u hu hne ↦ h.not_begins u hne ((List.mem_inits u s).mp hu),
        fun u hu hne ↦ h.not_ends u hne ((List.mem_tails u s).mp hu)⟩⟩

theorem ne_nil (h : Apart s t) : s ≠ [] := by
  rintro rfl
  exact h.not_inside List.nil_infix

/-- A beginning that reaches beyond `front` would share a part with `t`. -/
theorem prefix_append (h : Apart s t) (hs : s <+: front ++ (t ++ rest)) : s <+: front := by
  rcases List.prefix_or_prefix_of_prefix hs (List.prefix_append front _) with hshort | hlong
  · exact hshort
  · obtain ⟨u, rfl⟩ := hlong
    have hu : u <+: t ++ rest := (List.prefix_append_right_inj front).mp hs
    by_cases hne : u = []
    · rw [hne, List.append_nil]
    · rcases List.prefix_or_prefix_of_prefix hu (List.prefix_append t rest) with hin | hover
      · exact absurd hin (h.not_ends u hne (List.suffix_append front u))
      · exact absurd (hover.isInfix.trans (List.suffix_append front u).isInfix) h.not_holds

/-- Where `t` stands, `s` stands before it or behind it. -/
theorem infix_append (h : Apart s t) (hs : s <:+: front ++ (t ++ rest)) :
    s <:+: front ∨ s <:+: rest := by
  rcases List.infix_append_iff_ne_nil.mp hs with hs | hs | ⟨u, v, -, hv, rfl, hu, hover⟩
  · exact .inl hs
  · rcases List.infix_append_iff_ne_nil.mp hs with hs | hs | ⟨u, v, hu, -, rfl, hends, -⟩
    · exact absurd hs h.not_inside
    · exact .inr hs
    · exact absurd hends (h.not_begins u hu (List.prefix_append u v))
  · rcases List.prefix_or_prefix_of_prefix hover (List.prefix_append t rest) with hin | hholds
    · exact absurd hin (h.not_ends v hv (List.suffix_append u v))
    · exact absurd (hholds.isInfix.trans (List.suffix_append u v).isInfix) h.not_holds

/-- A beginning of `s` with which a text ends stands behind `t`. -/
theorem suffix_append (h : Apart s t) (hne : u ≠ []) (hu : u <+: s)
    (hends : u <:+ front ++ (t ++ rest)) : u <:+ rest := by
  rw [← List.append_assoc] at hends
  rcases List.suffix_or_suffix_of_suffix hends (List.suffix_append _ rest) with hshort | hlong
  · exact hshort
  · obtain ⟨v, rfl⟩ := hlong
    have hv : v <:+ front ++ t := List.suffix_append_inj_of_length_eq rfl |>.mp hends |>.1
    have hbegins : v <+: s := (List.prefix_append v rest).trans hu
    by_cases hnil : v = []
    · rw [hnil, List.nil_append]
    · rcases List.suffix_or_suffix_of_suffix hv (List.suffix_append front t) with hin | hover
      · exact absurd hin (h.not_begins v hnil hbegins)
      · exact absurd (hover.isInfix.trans hbegins.isInfix) h.not_holds

end Apart

/-! ## What a reading leaves as it is -/

open Replacement

variable [DecidableEq α] {patterns : List (Replacement α)} {p : Replacement α}
variable {text out u v : List α} {count : ℕ}

/-- No pattern stands in the text. -/
def Free (patterns : List (Replacement α)) (text : List α) : Prop :=
  ∀ p ∈ patterns, ¬ p.value <:+: text

instance : Decidable (Free patterns text) :=
  inferInstanceAs (Decidable (∀ p ∈ patterns, ¬ p.value <:+: text))

namespace Free

omit [DecidableEq α] in
theorem mono (h : Free patterns v) (huv : u <:+: v) : Free patterns u :=
  fun p hp hu ↦ h p hp (hu.trans huv)

omit [DecidableEq α] in
theorem nil (hvalues : ∀ p ∈ patterns, p.value ≠ []) : Free patterns [] :=
  fun p hp h ↦ hvalues p hp (List.eq_nil_of_infix_nil h)

theorem cons {a : α} (hnone : longest patterns (a :: text) = none) (h : Free patterns text) :
    Free patterns (a :: text) := by
  intro p hp hinside
  rcases List.infix_cons_iff.mp hinside with hheads | hinside
  · exact longest_eq_none.mp hnone p hp hheads
  · exact h p hp hinside

/-- Reading a text that holds no pattern keeps all of it, whatever follows a part of it. -/
theorem scans (h : Free patterns (u ++ v)) : Scans patterns (u ++ v) u 0 v := by
  induction u with
  | nil => exact .stop v
  | cons a u ih =>
    have hnone : longest patterns (a :: (u ++ v)) = none :=
      longest_eq_none.mpr fun p hp hheads ↦ h p hp hheads.isInfix
    exact .keep hnone (ih (h.mono (List.suffix_cons a (u ++ v)).isInfix))

end Free

/-- Reading `text` reaches its suffix `u`, which holds no pattern: nothing in `u` is replaced. -/
structure Untouched (patterns : List (Replacement α)) (text u : List α) : Prop where
  reached : ∃ out count, Scans patterns text out count u
  free : Free patterns u

namespace Untouched

theorem keep {a : α} (hnone : longest patterns (a :: text) = none)
    (h : Untouched patterns text u) : Untouched patterns (a :: text) u := by
  obtain ⟨out, count, hscan⟩ := h.reached
  exact ⟨⟨_, _, .keep hnone hscan⟩, h.free⟩

theorem replace (hsome : longest patterns (p.value ++ text) = some p)
    (h : Untouched patterns text u) : Untouched patterns (p.value ++ text) u := by
  obtain ⟨out, count, hscan⟩ := h.reached
  exact ⟨⟨_, _, .replace hsome hscan⟩, h.free⟩

theorem of_free (h : Free patterns text) : Untouched patterns text text :=
  ⟨⟨[], 0, .stop text⟩, h⟩

/-- What is behind an untouched place is untouched. -/
theorem of_suffix (h : Untouched patterns text v) (huv : u <:+ v) :
    Untouched patterns text u := by
  obtain ⟨front, rfl⟩ := huv
  obtain ⟨out, count, hscan⟩ := h.reached
  exact ⟨⟨_, _, hscan.append h.free.scans⟩, h.free.mono (List.suffix_append front u).isInfix⟩

end Untouched

namespace Scans

theorem suffix {rest : List α} (h : Scans patterns text out count rest) : rest <:+ text := by
  induction h with
  | stop => exact List.suffix_rfl
  | keep _ _ ih => exact ih.trans (List.suffix_cons _ _)
  | replace _ _ ih => exact ih.trans (List.suffix_append _ _)

/-- Either nothing is replaced, or the text and what is written agree up to the first pattern. -/
theorem first (hvalues : ∀ p ∈ patterns, p.value ≠ []) (h : Scans patterns text out count []) :
    (out = text ∧ Free patterns text) ∨
      ∃ q ∈ patterns, ∃ front rest rest',
        text = front ++ (q.value ++ rest) ∧ out = front ++ (q.replacement ++ rest') := by
  generalize hrest : ([] : List α) = rest at h
  induction h with
  | stop =>
    subst hrest
    exact .inl ⟨rfl, Free.nil hvalues⟩
  | @keep a text out rest count hnone hscan ih =>
    rcases ih hrest with ⟨rfl, hfree⟩ | ⟨q, hq, front, behind, behind', rfl, rfl⟩
    · exact .inl ⟨rfl, hfree.cons hnone⟩
    · exact .inr ⟨q, hq, a :: front, behind, behind', rfl, rfl⟩
  | @replace q text out rest count hsome hscan ih =>
    exact .inr ⟨q, (longest_mem hsome).1, [], text, out, rfl, rfl⟩

variable (hapart : ∀ p ∈ patterns, ∀ q ∈ patterns, Apart p.value q.replacement)

include hapart

theorem infix_append {after : List α} (h : Scans patterns text out count []) (hp : p ∈ patterns)
    (hinside : p.value <:+: out ++ after) :
    ∃ u, Untouched patterns text u ∧ p.value <:+: u ++ after := by
  have hvalues : ∀ p ∈ patterns, p.value ≠ [] := fun p hp ↦ (hapart p hp p hp).ne_nil
  generalize hrest : ([] : List α) = rest at h
  induction h with
  | stop =>
    subst hrest
    exact ⟨[], Untouched.of_free (Free.nil hvalues), hinside⟩
  | @keep a text out rest count hnone hscan ih =>
    subst hrest
    rw [List.cons_append] at hinside
    rcases List.infix_cons_iff.mp hinside with hheads | hinside
    · have hwhole : Scans patterns (a :: text) (a :: out) count [] := .keep hnone hscan
      rcases hwhole.first hvalues with ⟨heq, hfree⟩ | ⟨q, hq, front, behind, behind', htext, hout⟩
      · rw [← List.cons_append, heq] at hheads
        exact ⟨_, Untouched.of_free hfree, hheads.isInfix⟩
      · -- The pattern would have been met at the beginning of the text.
        rw [← List.cons_append, hout, List.append_assoc, List.append_assoc] at hheads
        have hfront := (hapart p hp q hq).prefix_append hheads
        rw [htext] at hnone
        exact absurd (hfront.trans (List.prefix_append _ _)) (longest_eq_none.mp hnone p hp)
    · obtain ⟨u, hu, hinside⟩ := ih hinside rfl
      exact ⟨u, hu.keep hnone, hinside⟩
  | @replace q text out rest count hsome hscan ih =>
    subst hrest
    rw [List.append_assoc, ← List.nil_append (q.replacement ++ _)] at hinside
    rcases (hapart p hp q (longest_mem hsome).1).infix_append hinside with hnil | hinside
    · exact absurd (List.eq_nil_of_infix_nil hnil) (hvalues p hp)
    · obtain ⟨u, hu, hinside⟩ := ih hinside rfl
      exact ⟨u, hu.replace hsome, hinside⟩

/-- What is written holds no pattern. -/
theorem free (h : Scans patterns text out count []) : Free patterns out := by
  intro p hp hinside
  rw [← List.append_nil out] at hinside
  obtain ⟨u, hu, hinside⟩ := h.infix_append hapart hp hinside
  rw [List.append_nil] at hinside
  exact hu.free p hp hinside

theorem untouched_of_suffix (h : Scans patterns text out count []) (hp : p ∈ patterns)
    (hne : u ≠ []) (hu : u <+: p.value) (hends : u <:+ out) : Untouched patterns text u := by
  have hvalues : ∀ p ∈ patterns, p.value ≠ [] := fun p hp ↦ (hapart p hp p hp).ne_nil
  generalize hrest : ([] : List α) = rest at h
  induction h with
  | stop => exact absurd (List.suffix_nil.mp hends) hne
  | @keep a text out rest count hnone hscan ih =>
    subst hrest
    rcases List.suffix_cons_iff.mp hends with rfl | hends
    · have hwhole : Scans patterns (a :: text) (a :: out) count [] := .keep hnone hscan
      rcases hwhole.first hvalues with ⟨heq, hfree⟩ | ⟨q, hq, front, behind, behind', -, hout⟩
      · rw [heq]
        exact Untouched.of_free hfree
      · rw [hout] at hu
        have hholds : q.replacement <:+: front ++ (q.replacement ++ behind') :=
          List.infix_append' _ _ _
        exact absurd (hholds.trans hu.isInfix) (hapart p hp q hq).not_holds
    · exact (ih hends rfl).keep hnone
  | @replace q text out rest count hsome hscan ih =>
    subst hrest
    rw [← List.nil_append (q.replacement ++ _)] at hends
    have hbehind := (hapart p hp q (longest_mem hsome).1).suffix_append hne hu hends
    exact (ih hbehind rfl).replace hsome

omit hapart

/-- An untouched suffix ends what is written too. -/
theorem suffix_of_untouched (hvalues : ∀ p ∈ patterns, p.value ≠ [])
    (h : Scans patterns text out count []) (hu : Untouched patterns text u) : u <:+ out := by
  obtain ⟨front, n, hscan⟩ := hu.reached
  have hfree : Free patterns (u ++ []) := by rw [List.append_nil]; exact hu.free
  have hkept := hfree.scans
  rw [List.append_nil] at hkept
  obtain ⟨rfl, -⟩ := h.unique hvalues (hscan.append hkept)
  exact List.suffix_append front u

/-- A beginning of a pattern ends what is written just where it is an untouched end of the text. -/
theorem suffix_iff_untouched
    (hapart : ∀ p ∈ patterns, ∀ q ∈ patterns, Apart p.value q.replacement)
    (h : Scans patterns text out count []) (hp : p ∈ patterns) (hne : u ≠ []) (hu : u <+: p.value) :
    u <:+ out ↔ Untouched patterns text u :=
  ⟨h.untouched_of_suffix hapart hp hne hu,
    h.suffix_of_untouched fun p hp ↦ (hapart p hp p hp).ne_nil⟩

/-- A pattern stands in what is written and followed by `after` just where it does in an untouched
end of the text followed by it. -/
theorem infix_append_iff
    (hapart : ∀ p ∈ patterns, ∀ q ∈ patterns, Apart p.value q.replacement) {after : List α}
    (h : Scans patterns text out count []) (hp : p ∈ patterns) :
    p.value <:+: out ++ after ↔ ∃ u, Untouched patterns text u ∧ p.value <:+: u ++ after := by
  constructor
  · exact h.infix_append hapart hp
  · rintro ⟨u, hu, hinside⟩
    obtain ⟨front, rfl⟩ := h.suffix_of_untouched (fun p hp ↦ (hapart p hp p hp).ne_nil) hu
    rw [List.append_assoc]
    exact hinside.trans (List.suffix_append front _).isInfix

end Scans

/-! ## What a reading inserts -/

variable {s before after : List α}

/-- The replacement of `p` stands in what is written behind `front`. -/
structure Inserted (patterns : List (Replacement α)) (text front : List α) (p : Replacement α) :
    Prop where
  reached : ∃ count rest, Scans patterns text front count (p.value ++ rest) ∧
    longest patterns (p.value ++ rest) = some p

namespace Inserted

variable {front : List α} {q : Replacement α}

theorem keep {a : α} (hnone : longest patterns (a :: text) = none)
    (h : Inserted patterns text front p) : Inserted patterns (a :: text) (a :: front) p := by
  obtain ⟨count, rest, hscan, hsome⟩ := h.reached
  exact ⟨count, rest, .keep hnone hscan, hsome⟩

theorem replace (hfirst : longest patterns (q.value ++ text) = some q)
    (h : Inserted patterns text front p) :
    Inserted patterns (q.value ++ text) (q.replacement ++ front) p := by
  obtain ⟨count, rest, hscan, hsome⟩ := h.reached
  exact ⟨count + 1, rest, .replace hfirst hscan, hsome⟩

theorem here (hsome : longest patterns (p.value ++ text) = some p) :
    Inserted patterns (p.value ++ text) [] p := ⟨0, text, .stop _, hsome⟩

end Inserted

namespace Scans

/-- What is written first is read first, unless something is inserted in it. -/
theorem inserted_of_front (h : Scans patterns text out count []) (hout : out = s ++ after) :
    (∃ front p, Inserted patterns text front p ∧ front.length < s.length) ∨ s <+: text := by
  generalize hrest : ([] : List α) = rest at h
  induction h generalizing s with
  | stop rest =>
    obtain ⟨rfl, -⟩ := List.append_eq_nil_iff.mp hout.symm
    exact .inr List.nil_prefix
  | @keep a text out rest count hnone h ih =>
    rcases s with _ | ⟨b, s⟩
    · exact .inr List.nil_prefix
    obtain ⟨rfl, htail⟩ := List.cons_eq_cons.mp hout
    rcases ih htail hrest with ⟨front, p, hinserted, hlt⟩ | hfront
    · exact .inl ⟨_, p, hinserted.keep hnone, Nat.succ_lt_succ hlt⟩
    · exact .inr (List.cons_prefix_cons.mpr ⟨rfl, hfront⟩)
  | @replace p text out rest count hsome h ih =>
    rcases s with _ | ⟨b, s⟩
    · exact .inr List.nil_prefix
    · exact .inl ⟨[], p, .here hsome, Nat.succ_pos _⟩

/-- **What is written is read, unless something is inserted in it.** -/
theorem inserted_of_infix (h : Scans patterns text out count []) (hs : s ≠ [])
    (hout : out = before ++ s ++ after) :
    (∃ front p, Inserted patterns text front p ∧ front.length < before.length + s.length ∧
      before.length < front.length + p.replacement.length) ∨ s <:+: text := by
  generalize hrest : ([] : List α) = rest at h
  induction h generalizing before with
  | stop rest =>
    have hnil := (List.append_eq_nil_iff.mp hout.symm).1
    exact absurd (List.append_eq_nil_iff.mp hnil).2 hs
  | @keep a text out rest count hnone h ih =>
    rcases before with _ | ⟨b, before⟩
    · -- what is inserted in it comes behind the letter that is kept
      obtain ⟨b, s, rfl⟩ := List.exists_cons_of_ne_nil hs
      obtain ⟨rfl, htail⟩ := List.cons_eq_cons.mp hout
      subst hrest
      rcases h.inserted_of_front htail with ⟨front, p, hinserted, hlt⟩ | hfront
      · refine .inl ⟨_, p, hinserted.keep hnone, ?_, ?_⟩
        · simpa using hlt
        · rw [List.length_cons, List.length_nil]
          omega
      · exact .inr (List.cons_prefix_cons.mpr ⟨rfl, hfront⟩).isInfix
    · rw [List.cons_append, List.cons_append] at hout
      obtain ⟨rfl, htail⟩ := List.cons_eq_cons.mp hout
      rcases ih htail hrest with ⟨front, p, hinserted, hlt, hlt'⟩ | hinside
      · refine .inl ⟨_, p, hinserted.keep hnone, ?_, ?_⟩
        · rw [List.length_cons, List.length_cons]
          omega
        · rw [List.length_cons, List.length_cons]
          omega
      · exact .inr (hinside.trans (List.suffix_cons _ _).isInfix)
  | @replace p text out rest count hsome h ih =>
    rcases Nat.lt_or_ge before.length p.replacement.length with hlt | hge
    · refine .inl ⟨[], p, .here hsome, ?_, ?_⟩
      · have := List.length_pos_of_ne_nil hs
        rw [List.length_nil]
        omega
      · rw [List.length_nil]
        omega
    · rw [List.append_assoc] at hout
      obtain ⟨before, rfl⟩ := List.prefix_of_prefix_length_le (List.prefix_append _ out)
        (hout ▸ List.prefix_append before _) hge
      rw [List.append_assoc, List.append_cancel_left_eq, ← List.append_assoc] at hout
      rcases ih hout hrest with ⟨front, q, hinserted, hlt, hlt'⟩ | hinside
      · refine .inl ⟨_, q, hinserted.replace hsome, ?_, ?_⟩
        · rw [List.length_append, List.length_append]
          omega
        · rw [List.length_append, List.length_append]
          omega
      · exact .inr (hinside.trans (List.suffix_append _ _).isInfix)

end Scans

end Concurrent
