import Mathlib.Data.List.Induction
import Mathlib.Data.List.Perm.Basic

/-!
# Taking what is ready

Elements that wait for others are put in an order by taking, again and again, the first one that is
ready: one that starts on its own, or follows one that was taken before. A round takes one element,
so there are no more rounds than elements. The order gets stuck exactly if some element cannot be
reached from those that start on their own, as on a cycle.
-/

namespace Concurrent

variable {α : Type} (start : α → Bool) (follows : α → α → Bool)

/-- The element starts on its own, or follows one of those ordered. -/
def ready (ordered : List α) (a : α) : Bool := start a || ordered.any fun p ↦ follows p a

/-- Takes the first element that is ready until none is pending. The outer `none` asks for more
rounds, and the inner one says that nothing is ready. -/
def readyOrder : ℕ → List α → List α → Option (Option (List α))
  | _, ordered, [] => some (some ordered)
  | 0, _, _ :: _ => none
  | rounds + 1, ordered, a :: pending =>
    match (a :: pending).find? (ready start follows ordered) with
    | none => some none
    | some next =>
      readyOrder rounds (ordered ++ [next])
        ((a :: pending).eraseP (ready start follows ordered))

/-- The element is reached from one that starts on its own. -/
inductive Rooted (all : List α) : α → Prop where
  | start {a : α} : a ∈ all → start a = true → Rooted all a
  | follow {p a : α} : Rooted all p → a ∈ all → follows p a = true → Rooted all a

/-- Each element starts on its own or follows an earlier one. -/
def InReadyOrder (ordered : List α) : Prop :=
  ∀ before a after, ordered = before ++ a :: after →
    start a = true ∨ ∃ p ∈ before, follows p a = true

variable {start follows} {all ordered pending : List α} {a : α}

theorem InReadyOrder.concat (h : InReadyOrder start follows ordered)
    (ha : ready start follows ordered a = true) : InReadyOrder start follows (ordered ++ [a]) := by
  intro before b after heq
  rcases List.eq_nil_or_concat after with rfl | ⟨after, c, rfl⟩
  · obtain ⟨rfl, hlast⟩ := List.append_inj' heq rfl
    obtain rfl : a = b := by simpa using hlast
    rw [ready, Bool.or_eq_true, List.any_eq_true] at ha
    exact ha
  · have heq' : ordered ++ [a] = (before ++ b :: after) ++ [c] := by simpa using heq
    exact h before b after (List.append_inj' heq' rfl).1

/-- What stands in such an order is reached from what starts on its own. -/
theorem InReadyOrder.rooted (h : InReadyOrder start follows ordered)
    (hall : ∀ a ∈ ordered, a ∈ all) :
    ∀ a ∈ ordered, Rooted start follows all a := by
  induction ordered using List.reverseRecOn with
  | nil => simp
  | append_singleton ordered b ih =>
    have hbefore : InReadyOrder start follows ordered := by
      rintro before a after rfl
      exact h before a (after ++ [b]) (by simp)
    have hrooted := ih hbefore fun a ha ↦ hall a (List.mem_append_left _ ha)
    intro a ha
    rcases List.mem_append.mp ha with ha | ha
    · exact hrooted a ha
    · obtain rfl := List.mem_singleton.mp ha
      rcases h ordered a [] rfl with hstart | ⟨p, hp, hfollows⟩
      · exact .start (hall a (by simp)) hstart
      · exact .follow (hrooted p hp) (hall a (by simp)) hfollows

/-- Where something that is pending is reached from what starts on its own, something is ready. -/
theorem Rooted.exists_ready (hall : ∀ a ∈ all, a ∈ ordered ∨ a ∈ pending)
    (ha : Rooted start follows all a) (hpending : a ∈ pending) :
    ∃ b ∈ pending, ready start follows ordered b = true := by
  induction ha with
  | start _ hstart => exact ⟨_, hpending, by simp [ready, hstart]⟩
  | @follow p a hp _ hfollows ih =>
    have hmem : p ∈ all := by
      cases hp with
      | start hmem => exact hmem
      | follow _ hmem => exact hmem
    rcases hall p hmem with hordered | hp
    · refine ⟨a, hpending, ?_⟩
      rw [ready, Bool.or_eq_true, List.any_eq_true]
      exact .inr ⟨p, hordered, hfollows⟩
    · exact ih hp

/-- The rounds are enough, the order has all elements with each behind what it follows, and it gets
stuck only if some element is not reached. -/
theorem readyOrder_spec {rounds : ℕ} (hperm : (ordered ++ pending).Perm all)
    (hordered : InReadyOrder start follows ordered) (hrounds : pending.length ≤ rounds) :
    ∃ result, readyOrder start follows rounds ordered pending = some result ∧
      (∀ o, result = some o → o.Perm all ∧ InReadyOrder start follows o) ∧
      (result ≠ none ↔ ∀ a ∈ all, Rooted start follows all a) := by
  induction rounds generalizing ordered pending with
  | zero =>
    obtain rfl := List.length_eq_zero_iff.mp (Nat.le_zero.mp hrounds)
    rw [List.append_nil] at hperm
    refine ⟨some ordered, rfl, ?_, fun _ a ha ↦ ?_, fun _ ↦ Option.some_ne_none _⟩
    · rintro _ ⟨⟩
      exact ⟨hperm, hordered⟩
    · exact hordered.rooted (fun a ha ↦ hperm.mem_iff.mp ha) a (hperm.mem_iff.mpr ha)
  | succ rounds ih =>
    cases pending with
    | nil =>
      rw [List.append_nil] at hperm
      refine ⟨some ordered, rfl, ?_, fun _ a ha ↦ ?_, fun _ ↦ Option.some_ne_none _⟩
      · rintro _ ⟨⟩
        exact ⟨hperm, hordered⟩
      · exact hordered.rooted (fun a ha ↦ hperm.mem_iff.mp ha) a (hperm.mem_iff.mpr ha)
    | cons b pending =>
      rw [readyOrder]
      cases hfind : (b :: pending).find? (ready start follows ordered) with
      | none =>
        refine ⟨none, rfl, nofun, fun h ↦ absurd rfl h, fun hrooted ↦ ?_⟩
        have hall : ∀ a ∈ all, a ∈ ordered ∨ a ∈ b :: pending := fun a ha ↦
          List.mem_append.mp (hperm.mem_iff.mpr ha)
        have hb : b ∈ all := hperm.mem_iff.mp (by simp)
        obtain ⟨c, hc, hready⟩ := (hrooted b hb).exists_ready hall List.mem_cons_self
        exact absurd hready (List.find?_eq_none.mp hfind c hc)
      | some next =>
        obtain ⟨hready, before, after, hsplit, hnone⟩ := List.find?_eq_some_iff_append.mp hfind
        have herase : (b :: pending).eraseP (ready start follows ordered) = before ++ after := by
          rw [hsplit, List.eraseP_append_right _ (fun a ha ↦ by simpa using hnone a ha),
            List.eraseP_cons_of_pos hready]
        have hnext : (ordered ++ [next] ++ (before ++ after)).Perm all := by
          refine List.Perm.trans ?_ hperm
          rw [hsplit, List.append_assoc, List.singleton_append]
          exact List.perm_middle.symm.append_left ordered
        rw [herase]
        refine ih hnext (hordered.concat hready) ?_
        have hlength := congrArg List.length hsplit
        simp only [List.length_cons, List.length_append] at hlength hrounds ⊢
        omega

end Concurrent
