import Mathlib.Data.List.Basic

/-!
# Going through a buffer once

Entries wait in a buffer until a state is ready for them. When the state has changed, the buffer is
gone through once, from its front: an entry that the state is ready for is taken and changes the
state, and the others stay. If an entry that is taken makes the state ready for one that was left
behind, that one stays in the buffer. Otherwise nothing that could be taken is left, and the entries
under one key keep their order.
-/

namespace Concurrent

variable {σ ε κ : Type} {ready : σ → ε → Bool} {step : σ → ε → σ}

/-- What going through a buffer leaves. -/
structure Replayed (σ ε : Type) where
  state : σ
  taken : List ε
  kept : List ε

@[grind =]
def replay (ready : σ → ε → Bool) (step : σ → ε → σ) (s : σ) : List ε → Replayed σ ε
  | [] => ⟨s, [], []⟩
  | e :: rest =>
    if ready s e then
      let replayed := replay ready step (step s e) rest
      { replayed with taken := e :: replayed.taken }
    else
      let replayed := replay ready step s rest
      { replayed with kept := e :: replayed.kept }

/-- No entry that is taken makes the state ready for one that was left behind. -/
def LooksForward (ready : σ → ε → Bool) (step : σ → ε → σ) (s : σ) (behind : List ε) :
    List ε → Prop
  | [] => True
  | e :: rest =>
    if ready s e then
      (∀ b ∈ behind, ready (step s e) b = false) ∧ LooksForward ready step (step s e) behind rest
    else LooksForward ready step s (e :: behind) rest

section

variable {s : σ} {behind l : List ε} {P : σ → Prop}

theorem replay_state :
    (replay ready step s l).state = (replay ready step s l).taken.foldl step s := by
  induction l generalizing s with
  | nil => rfl
  | cons e rest ih =>
    rw [replay]
    split
    · exact ih
    · exact ih

theorem replay_invariant (hstep : ∀ s, ∀ e ∈ l, ready s e = true → P s → P (step s e)) (h : P s) :
    P (replay ready step s l).state := by
  induction l generalizing s with
  | nil => exact h
  | cons e rest ih =>
    have hrest : ∀ s, ∀ e ∈ rest, ready s e = true → P s → P (step s e) :=
      fun s e' hmem ↦ hstep s e' (List.mem_cons_of_mem e hmem)
    rw [replay]
    split
    · next hready => exact ih hrest (hstep s e List.mem_cons_self hready h)
    · exact ih hrest h

theorem mem_of_mem_kept {e : ε} (h : e ∈ (replay ready step s l).kept) : e ∈ l := by
  induction l generalizing s with
  | nil => exact h
  | cons b rest ih =>
    rw [replay] at h
    split at h
    · exact List.mem_cons_of_mem b (ih h)
    · rcases List.mem_cons.mp h with rfl | h
      · exact List.mem_cons_self
      · exact List.mem_cons_of_mem b (ih h)

/-- Entries none of which is kept are taken in their order. -/
theorem filter_taken {p : ε → Bool} (h : ∀ e ∈ (replay ready step s l).kept, p e = false) :
    (replay ready step s l).taken.filter p = l.filter p := by
  induction l generalizing s with
  | nil => rfl
  | cons e rest ih =>
    rw [replay] at h ⊢
    split at h
    · next hready =>
      rw [if_pos hready, List.filter_cons, List.filter_cons, ih h]
    · next hready =>
      rw [if_neg hready, List.filter_cons,
        if_neg (Bool.eq_false_iff.mp (h e List.mem_cons_self))]
      exact ih fun b hb ↦ h b (List.mem_cons_of_mem e hb)

/-- Entries none of which is taken are kept in their order. -/
theorem filter_kept {p : ε → Bool} (h : ∀ e ∈ (replay ready step s l).taken, p e = false) :
    (replay ready step s l).kept.filter p = l.filter p := by
  induction l generalizing s with
  | nil => rfl
  | cons e rest ih =>
    rw [replay] at h ⊢
    split at h
    · next hready =>
      rw [if_pos hready, List.filter_cons,
        if_neg (Bool.eq_false_iff.mp (h e List.mem_cons_self))]
      exact ih fun b hb ↦ h b (List.mem_cons_of_mem e hb)
    · next hready =>
      rw [if_neg hready, List.filter_cons, List.filter_cons, ih h]

end

/-! ## A state that stays ready -/

section

variable (hstays : ∀ s e b, ready s b = true → ready (step s e) b = true)
include hstays

theorem ready_replay {s : σ} {l : List ε} {b : ε} (h : ready s b = true) :
    ready (replay ready step s l).state b = true :=
  replay_invariant (P := fun s ↦ ready s b = true) (fun s e _ _ ↦ hstays s e b) h

theorem ready_of_taken {s : σ} {l : List ε} {b : ε} (h : b ∈ (replay ready step s l).taken) :
    ready (replay ready step s l).state b = true := by
  induction l generalizing s with
  | nil => exact absurd h List.not_mem_nil
  | cons e rest ih =>
    rw [replay] at h ⊢
    split at h
    · next hready =>
      rw [if_pos hready]
      rcases List.mem_cons.mp h with rfl | h
      · exact ready_replay hstays (hstays s b b hready)
      · exact ih h
    · next hready =>
      rw [if_neg hready]
      exact ih h

/-- **Nothing that could be taken is left exactly if no entry looks back.** -/
theorem looksForward_iff {s : σ} {behind l : List ε} (hbehind : ∀ b ∈ behind, ready s b = false) :
    LooksForward ready step s behind l ↔
      ∀ b, b ∈ behind ∨ b ∈ (replay ready step s l).kept →
        ready (replay ready step s l).state b = false := by
  induction l generalizing s behind with
  | nil =>
    refine ⟨fun _ b hb ↦ ?_, fun _ ↦ trivial⟩
    rcases hb with hb | hb
    · exact hbehind b hb
    · exact absurd hb List.not_mem_nil
  | cons e rest ih =>
    rw [LooksForward, replay]
    split
    · constructor
      · rintro ⟨hnone, hrest⟩ b hb
        exact (ih hnone).mp hrest b hb
      · intro h
        -- What became ready now would be ready in the end.
        have hnone : ∀ b ∈ behind, ready (step s e) b = false := by
          intro b hb
          by_contra hready
          have hend := h b (.inl hb)
          rw [ready_replay hstays (Bool.not_eq_false _ ▸ hready)] at hend
          exact nomatch hend
        exact ⟨hnone, (ih hnone).mpr h⟩
    · next hready =>
      have hbehind' : ∀ b ∈ e :: behind, ready s b = false := by
        intro b hb
        rcases List.mem_cons.mp hb with rfl | hb
        · exact Bool.eq_false_iff.mpr hready
        · exact hbehind b hb
      rw [ih hbehind']
      refine forall_congr' fun b ↦ ?_
      rw [List.mem_cons, List.mem_cons, or_assoc, or_left_comm]

/-- The entries under one key keep their order, if nothing that could be taken is left. -/
theorem filter_replay [DecidableEq κ] {key : ε → κ} {s : σ} {l : List ε}
    (hkey : ∀ s e b, key e = key b → ready s e = ready s b)
    (hleft : ∀ b ∈ (replay ready step s l).kept, ready (replay ready step s l).state b = false)
    (k : κ) :
    (replay ready step s l).taken.filter (key · = k) ++
      (replay ready step s l).kept.filter (key · = k) = l.filter (key · = k) := by
  by_cases htaken : ∃ b ∈ (replay ready step s l).taken, key b = k
  · obtain ⟨b, hb, rfl⟩ := htaken
    have hready := ready_of_taken hstays hb
    have hkept : ∀ e ∈ (replay ready step s l).kept, decide (key e = key b) = false := by
      intro e he
      refine decide_eq_false fun heq ↦ ?_
      have hnot := hleft e he
      rw [hkey _ _ _ heq, hready] at hnot
      exact nomatch hnot
    rw [filter_taken hkept, List.filter_eq_nil_iff.mpr fun e he ↦ Bool.eq_false_iff.mp (hkept e he),
      List.append_nil]
  · have hnone : ∀ e ∈ (replay ready step s l).taken, decide (key e = k) = false :=
      fun e he ↦ decide_eq_false fun heq ↦ htaken ⟨e, he, heq⟩
    rw [filter_kept hnone, List.filter_eq_nil_iff.mpr fun e he ↦ Bool.eq_false_iff.mp (hnone e he),
      List.nil_append]

end

end Concurrent
