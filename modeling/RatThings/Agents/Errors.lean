import Mathlib.Data.Nat.Notation

/-!
# Errors of the Agents services

A service method fails with an API error, which its caller may act on, or with any other exception,
such as a lost connection. A commit that is refused is the first kind, with the code `conflict`.
-/

namespace RatThings

structure AgentsApiError where
  status : ℕ
  message : String
  code : Option String
  param : Option String
deriving DecidableEq, Repr

def AgentsApiError.invalid (message param : String) : AgentsApiError :=
  ⟨400, message, some "invalid_request", some param⟩

inductive ServiceFailure : Type
  | api (error : AgentsApiError)
  | error (message : String)
deriving DecidableEq, Repr

/-- What the store raises for a compare-and-swap it refused. -/
def conflictError : AgentsApiError :=
  ⟨409, "Resource changed concurrently. Retry the request.", some "conflict", none⟩

def notFoundError : AgentsApiError :=
  ⟨404, "Resource not found.", some "resource_not_found", none⟩

/-- The failure is an API error with this code. -/
def ServiceFailure.hasCode (failure : ServiceFailure) (code : String) : Bool :=
  match failure with
  | .api e => e.code == some code
  | .error _ => false

/-- A decision in two steps that comes out well. -/
theorem eq_ok_of_bind {ε α β : Type} {x : Except ε α} {f : α → Except ε β} {b : β}
    (h : (x >>= f) = .ok b) : ∃ a, x = .ok a ∧ f a = .ok b := by
  cases x with
  | error e => cases h
  | ok a => exact ⟨a, rfl, h⟩

end RatThings
