import Mathlib.Data.List.Basic

/-!
# Names made of parts

A name is put together from parts with a separator between them. Where a part has no separator in
it, the name says what stands before and after it.
-/

namespace Concurrent

variable {α : Type} {c : α} {l l' s s' : List α}

/-- What stands before the first separator. -/
theorem eq_of_append_separator (h : l ++ c :: s = l' ++ c :: s') (hl : c ∉ l) (hl' : c ∉ l') :
    l = l' ∧ s = s' := by
  induction l generalizing l' with
  | nil =>
    cases l' with
    | nil => exact ⟨rfl, (List.cons.inj h).2⟩
    | cons a l' =>
      obtain ⟨rfl, -⟩ := List.cons.inj h
      exact absurd List.mem_cons_self hl'
  | cons a l ih =>
    cases l' with
    | nil =>
      obtain ⟨rfl, -⟩ := List.cons.inj h
      exact absurd List.mem_cons_self hl
    | cons a' l' =>
      obtain ⟨rfl, hrest⟩ := List.cons.inj h
      obtain ⟨rfl, rfl⟩ := ih hrest (fun hmem ↦ hl (List.mem_cons_of_mem _ hmem))
        fun hmem ↦ hl' (List.mem_cons_of_mem _ hmem)
      exact ⟨rfl, rfl⟩

/-- What stands after the last separator. -/
theorem eq_of_separator_append (h : l ++ c :: s = l' ++ c :: s') (hs : c ∉ s) (hs' : c ∉ s') :
    l = l' ∧ s = s' := by
  have hreverse := congrArg List.reverse h
  simp only [List.reverse_append, List.reverse_cons, List.append_assoc, List.singleton_append]
    at hreverse
  obtain ⟨hlast, hfirst⟩ := eq_of_append_separator hreverse (by simpa using hs) (by simpa using hs')
  exact ⟨List.reverse_injective hfirst, List.reverse_injective hlast⟩

/-- A text is one part, or a part in front of a separator and a text. -/
theorem separated_induction {motive : List α → Prop} (single : ∀ s, c ∉ s → motive s)
    (parts : ∀ l s, c ∉ l → motive s → motive (l ++ c :: s)) (s : List α) : motive s := by
  induction hlength : s.length using Nat.strongRecOn generalizing s with
  | ind n ih =>
    by_cases hmem : c ∈ s
    · obtain ⟨l, rest, rfl, hl⟩ := List.eq_append_cons_of_mem hmem
      refine parts l rest hl (ih rest.length ?_ rest rfl)
      rw [← hlength, List.length_append, List.length_cons]
      omega
    · exact single s hmem

/-- A text is split into parts without the separator. -/
theorem notMem_of_mem_splitOn [BEq α] [LawfulBEq α] (h : l ∈ s.splitOn c) : c ∉ l := by
  induction s using separated_induction (c := c) with
  | single s hs =>
    rw [List.splitOn_eq_singleton hs] at h
    rwa [List.mem_singleton.1 h]
  | parts first rest hfirst ih =>
    rw [List.splitOn_append_cons_self_of_not_mem hfirst] at h
    rcases List.mem_cons.1 h with rfl | h
    · exact hfirst
    · exact ih h

end Concurrent
