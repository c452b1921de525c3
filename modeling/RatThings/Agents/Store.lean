import RatThings.Agents.Errors
import RatThings.Library.RecordService

/-!
# Programs over the Agents store

The store keeps resources by collection and id. The services read them, and commit writes that name
the revisions they read. A commit that is refused is reported as a conflict; one whose answer is
lost is reported as a lost connection, and may have taken effect.
-/

namespace RatThings

open Concurrent Setting

variable {Key : Type} {Val : Key → Type} {Ask : Type} {Ans : Ask → Type} {α β : Type}

/-- A service method over the store. -/
abbrev StoreProg (Key : Type) (Val : Key → Type) (Ans : Ask → Type) : Type → Type :=
  Prog (RecordEffect Key Val Ask) (RecordEffect.Answer Ans) ServiceFailure

/-- The resource, which must be there. -/
def requiredRecord (k : Key) : StoreProg Key Val Ans (Versioned (Val k)) := do
  match ← Prog.perform (RecordEffect.get k) with
  | some resource => pure resource
  | none => throw (.api notFoundError)

/-- Several writes at once. -/
def commitWrites (writes : List (Write Key Val)) : StoreProg Key Val Ans Unit := do
  match ← Prog.perform (RecordEffect.commit writes) with
  | .done => pure ()
  | .conflict => throw (.api conflictError)
  | .unknown => throw (.error "connection lost")

/-- A new value for a resource that was read. -/
def putRecord {k : Key} (resource : Versioned (Val k)) (value : Val k) :
    StoreProg Key Val Ans Unit :=
  commitWrites [⟨k, resource.revision, some value⟩]

/-- A decision that may be refused. -/
def orRefuse (r : Except AgentsApiError α) : StoreProg Key Val Ans α :=
  Prog.ofExcept (r.mapError .api)

section

variable [DecidableEq Key] {Ghost Call χ ρ : Type} {spec : RecordSpec Key Val Ghost Call}
  {surroundings : Surroundings Key Val Ask Ans Ghost χ}
  {body : Call → StoreProg Key Val Ans ρ}
  {D : Discipline (RecordWorld Key Val Ghost) (RecordEffect Key Val Ask) Call (RecordChoice χ)}
  {p : ℕ × Call} {P : RecordWorld Key Val Ghost → Prop}

theorem yields_orRefuse {r : Except AgentsApiError β} :
    (spec.setting surroundings body D).Yields p (orRefuse r : StoreProg Key Val Ans β)
      fun b ↦ r = .ok b := by
  refine yields_ofExcept fun b h ↦ ?_
  cases r with
  | ok b' =>
    cases h
    rfl
  | error e => cases h

theorem meets_requiredRecord {k : Key} {f : Versioned (Val k) → StoreProg Key Val Ans β}
    {Q : β → RecordWorld Key Val Ghost → Prop}
    (hP : (spec.setting surroundings body D).Stable p P)
    (h : ∀ w₀ resource, spec.inv w₀ → P w₀ → w₀.records k = some resource →
      (spec.setting surroundings body D).Meets p (spec.since w₀) (f resource) Q fun _ _ ↦ True) :
    (spec.setting surroundings body D).Meets p P (requiredRecord k >>= f) Q fun _ _ ↦ True := by
  refine RecordSpec.meets_get hP fun w₀ hinv hp ↦ ?_
  cases hread : w₀.records k with
  | none => exact meets_raise fun _ _ _ ↦ trivial
  | some resource => exact h w₀ resource hinv hp hread

/-- A commit that is acknowledged took effect. -/
theorem meets_commitWrites {ws : List (Write Key Val)} {R : RecordWorld Key Val Ghost → Prop}
    (hP : (spec.setting surroundings body D).Permanent P)
    (h : ∀ w st, spec.inv w → P w → w.records.commit ws = some st →
      spec.Steps p w ⟨st, surroundings.observe p.1 w.records st w.ghost⟩ ∧
        R ⟨st, surroundings.observe p.1 w.records st w.ghost⟩) :
    (spec.setting surroundings body D).Meets p P (commitWrites ws : StoreProg Key Val Ans Unit)
      (fun _ w ↦ P w ∧ R w) fun _ w ↦ P w := by
  refine Meets.bind (RecordSpec.meets_commit hP h) fun r ↦ ?_
  cases r with
  | done => exact meets_ret fun w _ hw ↦ ⟨hw.1, hw.2 rfl⟩
  | conflict => exact meets_raise fun _ _ hw ↦ hw.1
  | unknown => exact meets_raise fun _ _ hw ↦ hw.1

theorem alone_commitWrites {pid : ℕ} {w : RecordWorld Key Val Ghost} {ws : List (Write Key Val)}
    {st : Store Key Val} (x : χ) (h : w.records.commit ws = some st) :
    Service.Alone (surroundings.service body) .free pid w
      (commitWrites ws : StoreProg Key Val Ans Unit)
      ⟨st, surroundings.observe pid w.records st w.ghost⟩ (.ret ()) :=
  (alone_commit surroundings body x h).bind _

end

end RatThings
