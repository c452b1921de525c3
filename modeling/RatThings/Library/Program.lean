import Mathlib.Control.Basic

/-!
# Asynchronous programs

An asynchronous method is a finite tree: it returns, raises an exception, or issues one request and
continues with the answer. Everything between two requests is instantaneous, so the requests are
exactly the points at which other methods may run.

## Implementation notes

The tree is inductive. A loop is a recursion on the number of attempts it has left, and a method
that waits for ever is a method that is never resumed. What a request does to the world is not a
matter of programs; here it is a request with a type of answers.

Programs form a monad, and `catching` and `ensuring` are the exception handlers. Both are defined by
recursion on the tree, so a handler is in force behind every request until the method has ended.
-/

namespace Concurrent

/-- A method that issues requests `e : E`, each answered by an `A e`, and ends by returning an `α`
or raising an `ε`. -/
inductive Prog (E : Type) (A : E → Type) (ε α : Type) : Type
  | ret (a : α)
  | raise (e : ε)
  | call (e : E) (k : A e → Prog E A ε α)

namespace Prog

variable {E : Type} {A : E → Type} {ε ε' α β : Type}

/-- Sequencing. -/
protected def bind : Prog E A ε α → (α → Prog E A ε β) → Prog E A ε β
  | ret a, f => f a
  | raise e, _ => raise e
  | call e k, f => call e fun a ↦ (k a).bind f

/-- Exception handling: the handler sees only what the body raises, and may raise exceptions of
another type. -/
protected def catching : Prog E A ε α → (ε → Prog E A ε' α) → Prog E A ε' α
  | ret a, _ => ret a
  | raise e, h => h e
  | call e k, h => call e fun a ↦ (k a).catching h

instance : Monad (Prog E A ε) where
  pure := ret
  bind := Prog.bind

instance : MonadExceptOf ε (Prog E A ε) where
  throw := raise
  tryCatch := Prog.catching

/-- `try { m } finally { c }`: an exception of the clean-up replaces what `m` ended with. -/
def ensuring (m : Prog E A ε α) (c : Prog E A ε Unit) : Prog E A ε α := do
  let a ← tryCatch m fun e ↦ do
    c
    throw e
  c
  pure a

/-- Issue one request and return its answer. -/
def perform (e : E) : Prog E A ε (A e) := call e ret

/-- Return or raise what a request answered. -/
def ofExcept : Except ε α → Prog E A ε α
  | .ok a => ret a
  | .error e => raise e

/-- How the method ended, if it has. -/
def result? : Prog E A ε α → Option (Except ε α)
  | ret a => some (.ok a)
  | raise e => some (.error e)
  | call .. => none

theorem eq_ret_of_result? {m : Prog E A ε α} {a : α} (h : m.result? = some (.ok a)) :
    m = ret a := by
  cases m <;> simp_all [result?]

theorem eq_raise_of_result? {m : Prog E A ε α} {e : ε} (h : m.result? = some (.error e)) :
    m = raise e := by
  cases m <;> simp_all [result?]

/-! ## Normal forms

The `do` notation unfolds to trees: these rules leave one `call` for each request. -/

@[simp] theorem pure_eq (a : α) : (pure a : Prog E A ε α) = ret a := rfl

@[simp] theorem throw_eq (e : ε) : (throw e : Prog E A ε α) = raise e := rfl

@[simp] theorem ret_bind (a : α) (f : α → Prog E A ε β) : (ret a >>= f) = f a := rfl

@[simp] theorem raise_bind (e : ε) (f : α → Prog E A ε β) : (raise e >>= f) = raise e := rfl

@[simp] theorem call_bind (e : E) (k : A e → Prog E A ε α) (f : α → Prog E A ε β) :
    (call e k >>= f) = call e fun a ↦ k a >>= f := rfl

@[simp] theorem perform_bind (e : E) (f : A e → Prog E A ε β) :
    (perform e >>= f) = call e f := rfl

@[simp] theorem ofExcept_ok (a : α) : (ofExcept (.ok a) : Prog E A ε α) = ret a := rfl

@[simp] theorem ofExcept_error (e : ε) : (ofExcept (.error e) : Prog E A ε α) = raise e := rfl

@[simp] theorem tryCatch_eq (m : Prog E A ε α) (h : ε → Prog E A ε α) :
    tryCatch m h = m.catching h := rfl

@[simp] theorem ret_catching (a : α) (h : ε → Prog E A ε' α) :
    (ret a : Prog E A ε α).catching h = ret a := rfl

@[simp] theorem raise_catching (e : ε) (h : ε → Prog E A ε' α) :
    (raise e : Prog E A ε α).catching h = h e := rfl

@[simp] theorem call_catching (e : E) (k : A e → Prog E A ε α) (h : ε → Prog E A ε' α) :
    (call e k).catching h = call e fun a ↦ (k a).catching h := rfl

theorem bind_assoc {γ : Type} (m : Prog E A ε α) (f : α → Prog E A ε β) (g : β → Prog E A ε γ) :
    (m >>= f >>= g) = m >>= fun a ↦ f a >>= g := by
  induction m with
  | ret a => rfl
  | raise e => rfl
  | call e k ih => exact congrArg (call e) (funext ih)

/-! ## The requests of a program -/

/-- Every request of the program is one of these. -/
def Within (R : E → Prop) : Prog E A ε α → Prop
  | ret _ => True
  | raise _ => True
  | call e k => R e ∧ ∀ a, (k a).Within R

variable {R : E → Prop}

theorem Within.bind {m : Prog E A ε α} {f : α → Prog E A ε β} (hm : m.Within R)
    (hf : ∀ a, (f a).Within R) : (m >>= f).Within R := by
  induction m with
  | ret a => exact hf a
  | raise e => trivial
  | call e k ih => exact ⟨hm.1, fun a ↦ ih a (hm.2 a)⟩

theorem Within.catching {m : Prog E A ε α} {f : ε → Prog E A ε' α} (hm : m.Within R)
    (hf : ∀ e, (f e).Within R) : (m.catching f).Within R := by
  induction m with
  | ret a => trivial
  | raise e => exact hf e
  | call e k ih => exact ⟨hm.1, fun a ↦ ih a (hm.2 a)⟩

theorem within_perform {e : E} (he : R e) : (perform e : Prog E A ε (A e)).Within R :=
  ⟨he, fun _ ↦ trivial⟩

end Prog

end Concurrent
