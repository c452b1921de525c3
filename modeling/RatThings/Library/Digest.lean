import Mathlib.Data.Nat.Notation
import Mathlib.Logic.Function.Basic

/-!
# Digests without collisions

Programs compare values by their digests, and what they rely on is that no two values they meet
have the same one. `digest` is a digest for which this is literally so: it writes the value out in
a prefix-free code, so that the parts of a value can be told apart.
-/

namespace Concurrent

/-- A code in which no word is the beginning of another. -/
class Code (α : Type) where
  encode : α → List Char
  prefixFree : ∀ {a b : α} {s t : List Char}, encode a ++ s = encode b ++ t → a = b ∧ s = t

namespace Code

variable {α β : Type}

/-- A type is coded through another that holds its data. -/
@[reducible] def ofInjective [Code β] (f : α → β) (hf : Function.Injective f) : Code α where
  encode a := encode (f a)
  prefixFree h := (prefixFree h).imp_left fun he ↦ hf he

instance : Code Char where
  encode c := [c]
  prefixFree h := List.cons_eq_cons.mp h

instance : Code Unit where
  encode _ := []
  prefixFree h := ⟨rfl, h⟩

instance [Code α] [Code β] : Code (α × β) where
  encode p := encode p.1 ++ encode p.2
  prefixFree {p q s t} h := by
    rw [List.append_assoc, List.append_assoc] at h
    obtain ⟨h₁, h⟩ := prefixFree h
    obtain ⟨h₂, h⟩ := prefixFree h
    exact ⟨Prod.ext h₁ h₂, h⟩

instance [Code α] [Code β] : Code (α ⊕ β) where
  encode
    | .inl a => 'l' :: encode a
    | .inr b => 'r' :: encode b
  prefixFree {a b s t} h := by
    rcases a with a | a <;> rcases b with b | b <;> obtain ⟨htag, h⟩ := List.cons_eq_cons.mp h
    · exact (prefixFree h).imp_left (congrArg _)
    · simp at htag
    · simp at htag
    · exact (prefixFree h).imp_left (congrArg _)

/-- The items of a list, each announced. -/
def encodeList [Code α] : List α → List Char
  | [] => ['.']
  | a :: l => ',' :: (encode a ++ encodeList l)

instance [Code α] : Code (List α) where
  encode := encodeList
  prefixFree {a b s t} h := by
    induction a generalizing b with
    | nil =>
      rcases b with _ | ⟨b, m⟩ <;> obtain ⟨htag, h⟩ := List.cons_eq_cons.mp h
      · exact ⟨rfl, h⟩
      · simp at htag
    | cons a l ih =>
      rcases b with _ | ⟨b, m⟩ <;> obtain ⟨htag, h⟩ := List.cons_eq_cons.mp h
      · simp at htag
      · have hparts : encode a ++ (encodeList l ++ s) = encode b ++ (encodeList m ++ t) := by
          rw [← List.append_assoc, ← List.append_assoc]
          exact h
        obtain ⟨rfl, hrest⟩ := prefixFree hparts
        obtain ⟨rfl, hst⟩ := ih hrest
        exact ⟨rfl, hst⟩

instance : Code String := ofInjective String.toList fun _ _ h ↦ String.toList_inj.mp h

instance : Code Bool :=
  ofInjective (fun b ↦ if b then Sum.inl () else Sum.inr ()) fun a b h ↦ by
    cases a <;> cases b <;> simp_all

instance [Code α] : Code (Option α) :=
  ofInjective (fun o ↦ o.elim (Sum.inl ()) Sum.inr) fun a b h ↦ by
    cases a <;> cases b <;> simp_all

instance : Code ℕ := ofInjective (List.replicate · ()) fun a b h ↦ by
  simpa using congrArg List.length h

end Code

variable {α : Type} [Code α]

/-- The value, written out. -/
def digest (a : α) : String := String.ofList (Code.encode a)

theorem digest_injective : Function.Injective (digest : α → String) := by
  intro a b h
  have hcode : Code.encode a = Code.encode b := by
    simpa [digest] using congrArg String.toList h
  exact (Code.prefixFree (congrArg (· ++ []) hcode)).1

end Concurrent
