import Mathlib.Data.List.Basic

/-!
# Computations that may fail

When a sequence of fallible steps ends well, every step of it has.
-/

namespace Concurrent

variable {ε α β : Type}

theorem bind_eq_ok {x : Except ε α} {f : α → Except ε β} {b : β} :
    (x >>= f) = .ok b ↔ ∃ a, x = .ok a ∧ f a = .ok b := by
  cases x with
  | error e => exact ⟨(nomatch ·), fun ⟨_, h, _⟩ ↦ nomatch h⟩
  | ok a => exact ⟨fun h ↦ ⟨a, rfl, h⟩, fun ⟨_, h, h'⟩ ↦ Except.ok.inj h ▸ h'⟩

/-- A check of every element ends well exactly if each check does. -/
theorem forM_eq_ok {l : List α} {f : α → Except ε Unit} :
    forM l f = .ok () ↔ ∀ a ∈ l, f a = .ok () := by
  induction l with
  | nil => simp [pure, Except.pure]
  | cons a l ih =>
    rw [List.forM_cons, bind_eq_ok, List.forall_mem_cons, ← ih]
    exact ⟨fun ⟨_, ha, hl⟩ ↦ ⟨ha, hl⟩, fun ⟨ha, hl⟩ ↦ ⟨(), ha, hl⟩⟩

/-- What every step of a loop that ends well keeps, the loop keeps. -/
theorem foldlM_invariant {f : β → α → Except ε β} {l : List α} {b out : β} (I : β → Prop)
    (hstep : ∀ a ∈ l, ∀ b b', f b a = .ok b' → I b → I b') (h : l.foldlM f b = .ok out)
    (hb : I b) : I out := by
  induction l generalizing b with
  | nil =>
    obtain rfl := Except.ok.inj h
    exact hb
  | cons a l ih =>
    rw [List.foldlM_cons, bind_eq_ok] at h
    obtain ⟨b', hb', h⟩ := h
    exact ih (fun a' ha' ↦ hstep a' (List.mem_cons_of_mem a ha')) h
      (hstep a List.mem_cons_self b b' hb' hb)

/-- What a fallible step gives for the elements of a list, it gives for one of them each. -/
theorem exists_of_mapM_eq_ok {f : α → Except ε β} {l : List α} {out : List β}
    (h : l.mapM f = .ok out) : ∀ b ∈ out, ∃ a ∈ l, f a = .ok b := by
  induction l generalizing out with
  | nil =>
    obtain rfl : [] = out := Except.ok.inj h
    simp
  | cons a l ih =>
    rw [List.mapM_cons, bind_eq_ok] at h
    obtain ⟨b, hb, h⟩ := h
    obtain ⟨rest, hrest, h⟩ := bind_eq_ok.mp h
    obtain rfl := Except.ok.inj h
    intro c hc
    rcases List.mem_cons.mp hc with rfl | hc
    · exact ⟨a, List.mem_cons_self, hb⟩
    · obtain ⟨a', ha', hc⟩ := ih hrest c hc
      exact ⟨a', List.mem_cons_of_mem a ha', hc⟩

/-! ## Steps that give a result -/

theorem mapM_eq_some {f : α → Option β} {g : α → β} {l : List α}
    (h : ∀ a ∈ l, f a = some (g a)) : l.mapM f = some (l.map g) := by
  induction l with
  | nil => rfl
  | cons a l ih =>
    rw [List.mapM_cons, h a List.mem_cons_self, ih fun b hb ↦ h b (List.mem_cons_of_mem a hb)]
    rfl

theorem filterMapM_eq_some {f : α → Option (Option β)} {g : α → Option β} {l : List α}
    (h : ∀ a ∈ l, f a = some (g a)) : l.filterMapM f = some (l.filterMap g) := by
  induction l with
  | nil => rfl
  | cons a l ih =>
    rw [List.filterMapM_cons, h a List.mem_cons_self,
      ih fun b hb ↦ h b (List.mem_cons_of_mem a hb), List.filterMap_cons]
    rcases g a with _ | b <;> rfl

end Concurrent
