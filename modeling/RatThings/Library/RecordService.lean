import RatThings.Library.RelyGuarantee
import RatThings.Library.VersionedStore

/-!
# Services over a record store

Many services share nothing but records under compare-and-swap. A caller reads records, asks the
world outside the store for other things (a clock, a fresh id, whether a process has stopped), and
commits writes that name the revisions it read.

`Surroundings` is what such a service has besides its records: how the world outside answers, and a
history that is computed from the records before and after each commit. No program reads the
history; it is there to be spoken about.

## How callers are verified

Between two of its requests a caller knows one thing about the state: it came after the state it
saw last. `RecordSpec.since` is that relation. It is the only kind of assertion most callers need,
because a commit that takes effect has found the records it names as they were read.
-/

namespace Concurrent

open Service

variable {Key : Type} {Val : Key → Type} {Ask : Type} {Ans : Ask → Type}
  {ε α β γ η Call χ Ghost : Type}

/-! ## Requests -/

inductive RecordEffect (Key : Type) (Val : Key → Type) (Ask : Type) : Type
  | get (k : Key)
  | commit (writes : List (Write Key Val))
  | ask (q : Ask)

abbrev RecordEffect.Answer (Ans : Ask → Type) : RecordEffect Key Val Ask → Type
  | .get k => Slot (Val k)
  | .commit _ => Reply
  | .ask q => Ans q

structure RecordWorld (Key : Type) (Val : Key → Type) (Ghost : Type) where
  records : Store Key Val
  ghost : Ghost

/-- What the environment decides: the fate of a commit, or the answer to a question. -/
structure RecordChoice (χ : Type) where
  answer : χ
  fate : Fate := .acknowledged

/-- What a service has besides its records. -/
structure Surroundings (Key : Type) (Val : Key → Type) (Ask : Type) (Ans : Ask → Type)
    (Ghost χ : Type) where
  /-- How a question is answered; `none` when the choice is not one the environment has. -/
  answer : ℕ → (q : Ask) → χ → Ghost → Option (Ans q × Ghost)
  /-- The history after a commit, from the records before and after it. -/
  observe : ℕ → Store Key Val → Store Key Val → Ghost → Ghost

variable [DecidableEq Key]

def Surroundings.handle (surroundings : Surroundings Key Val Ask Ans Ghost χ) (pid : ℕ) :
    (e : RecordEffect Key Val Ask) → RecordChoice χ → RecordWorld Key Val Ghost →
      Option (e.Answer Ans × RecordWorld Key Val Ghost)
  | .get k, _, w => some (w.records k, w)
  | .commit ws, x, w =>
    some (x.fate.settle ((w.records.commit ws).map fun st ↦
      ⟨st, surroundings.observe pid w.records st w.ghost⟩) w)
  | .ask q, x, w =>
    (surroundings.answer pid q x.answer w.ghost).map fun r ↦ (r.1, ⟨w.records, r.2⟩)

/-- A record service: its methods and its surroundings. -/
def Surroundings.service (surroundings : Surroundings Key Val Ask Ans Ghost χ)
    (body : Call → Prog (RecordEffect Key Val Ask) (RecordEffect.Answer Ans) ε α) :
    Service (RecordWorld Key Val Ghost) (RecordEffect Key Val Ask) (RecordEffect.Answer Ans) ε α
      Call (RecordChoice χ) :=
  ⟨body, surroundings.handle⟩

/-! ## Verification -/

/-- What the proofs about a record service share. -/
structure RecordSpec (Key : Type) (Val : Key → Type) (Ghost Call : Type) where
  inv : RecordWorld Key Val Ghost → Prop
  /-- What any number of steps of any callers may do. -/
  since : RecordWorld Key Val Ghost → RecordWorld Key Val Ghost → Prop
  /-- What one step of this call may do, besides. -/
  allowed : ℕ × Call → RecordWorld Key Val Ghost → RecordWorld Key Val Ghost → Prop
  since_refl : ∀ w, since w w
  since_trans : ∀ {w₁ w₂ w₃}, since w₁ w₂ → since w₂ w₃ → since w₁ w₃
  allowed_refl : ∀ p w, allowed p w w

namespace RecordSpec

variable (spec : RecordSpec Key Val Ghost Call)
  (surroundings : Surroundings Key Val Ask Ans Ghost χ)
  (body : Call → Prog (RecordEffect Key Val Ask) (RecordEffect.Answer Ans) ε α)
  (D : Discipline (RecordWorld Key Val Ghost) (RecordEffect Key Val Ask) Call (RecordChoice χ))

def setting : Setting (RecordWorld Key Val Ghost) (RecordEffect Key Val Ask)
    (RecordEffect.Answer Ans) ε α Call (RecordChoice χ) where
  service := surroundings.service body
  discipline := D
  inv := spec.inv
  guar p _ w w' := spec.since w w' ∧ spec.allowed p w w'

/-- A step from a state of the invariant that keeps to the specification. -/
def Steps (p : ℕ × Call) (w w' : RecordWorld Key Val Ghost) : Prop :=
  spec.inv w' ∧ spec.since w w' ∧ spec.allowed p w w'

variable {spec surroundings body D} {p : ℕ × Call} {P : RecordWorld Key Val Ghost → Prop}

omit [DecidableEq Key] in
theorem steps_refl {w : RecordWorld Key Val Ghost} (h : spec.inv w) : spec.Steps p w w :=
  ⟨h, spec.since_refl w, spec.allowed_refl p w⟩

theorem since_permanent (w₀ : RecordWorld Key Val Ghost) :
    (spec.setting surroundings body D).Permanent (spec.since w₀) :=
  fun _ _ _ _ _ _ hg h ↦ spec.since_trans h hg.1

variable {Q : β → RecordWorld Key Val Ghost → Prop} {T : η → RecordWorld Key Val Ghost → Prop}

/-- A program may rest on having come after the state in which it starts. -/
theorem meets_start {m : Prog (RecordEffect Key Val Ask) (RecordEffect.Answer Ans) η β}
    (h : ∀ w₀, spec.inv w₀ → P w₀ →
      (spec.setting surroundings body D).Meets p (spec.since w₀) m Q T) :
    (spec.setting surroundings body D).Meets p P m Q T :=
  fun w hinv hp ↦ h w hinv hp w hinv (spec.since_refl w)

/-- Reading a record: from then on the state came after the one that was read. -/
theorem meets_get {k : Key} {f : Slot (Val k) → Prog (RecordEffect Key Val Ask)
      (RecordEffect.Answer Ans) η β}
    (hP : (spec.setting surroundings body D).Stable p P)
    (h : ∀ w₀, spec.inv w₀ → P w₀ →
      (spec.setting surroundings body D).Meets p (spec.since w₀) (f (w₀.records k)) Q T) :
    (spec.setting surroundings body D).Meets p P (Prog.perform (.get k) >>= f) Q T := by
  refine Setting.meets_call
    (fun a w ↦ ∃ w₀, spec.inv w₀ ∧ P w₀ ∧ w₀.records k = a ∧ spec.since w₀ w)
    hP (fun w x a w' hinv hp _ ha ↦ ?_) fun a w hinv hw ↦ ?_
  · cases ha
    obtain ⟨_, hsince, hallowed⟩ := steps_refl (p := p) hinv
    exact ⟨hinv, ⟨hsince, hallowed⟩, w, hinv, hp, rfl, hsince⟩
  · obtain ⟨w₀, hinv₀, hp₀, rfl, hw⟩ := hw
    exact h w₀ hinv₀ hp₀ w hinv hw

/-- A commit, from what it does where it takes effect. -/
theorem meets_commit {ws : List (Write Key Val)} {R : RecordWorld Key Val Ghost → Prop}
    (hP : (spec.setting surroundings body D).Permanent P)
    (h : ∀ w st, spec.inv w → P w → w.records.commit ws = some st →
      spec.Steps p w ⟨st, surroundings.observe p.1 w.records st w.ghost⟩ ∧
        R ⟨st, surroundings.observe p.1 w.records st w.ghost⟩) :
    (spec.setting surroundings body D).Meets p P
      (Prog.perform (RecordEffect.commit ws) :
        Prog (RecordEffect Key Val Ask) (RecordEffect.Answer Ans) η Reply)
      (fun r w ↦ P w ∧ (r = .done → R w)) T := by
  refine Setting.meets_perform hP.stable fun w x a w' hinv hp _ ha ↦ ?_
  rcases Fate.settle_cases (Option.some.inj ha) with ⟨hnext, -⟩ | ⟨rfl, hne⟩
  · obtain ⟨st, hst, rfl⟩ := Option.map_eq_some_iff.mp hnext
    obtain ⟨⟨hinv', hsince, hallowed⟩, hr⟩ := h w st hinv hp hst
    exact ⟨hinv', ⟨hsince, hallowed⟩,
      hP (q := p) (e := .commit ws) hinv hinv' ⟨hsince, hallowed⟩ hp,
      fun _ ↦ hr⟩
  · obtain ⟨_, hsince, hallowed⟩ := steps_refl (p := p) hinv
    exact ⟨hinv, ⟨hsince, hallowed⟩, hp, fun hdone ↦ absurd hdone hne⟩

/-- A question, from what each answer does to the history. -/
theorem meets_ask {q : Ask} {R : Ans q → RecordWorld Key Val Ghost → Prop}
    (hP : (spec.setting surroundings body D).Permanent P)
    (h : ∀ w x a g, spec.inv w → P w → D.answers p.1 (.ask q) x w →
      surroundings.answer p.1 q x.answer w.ghost = some (a, g) →
        spec.Steps p w ⟨w.records, g⟩ ∧ R a ⟨w.records, g⟩) :
    (spec.setting surroundings body D).Meets p P
      (Prog.perform (RecordEffect.ask q) :
        Prog (RecordEffect Key Val Ask) (RecordEffect.Answer Ans) η (Ans q))
      (fun a w ↦ P w ∧ R a w) T := by
  refine Setting.meets_perform hP.stable fun w x a w' hinv hp hx ha ↦ ?_
  obtain ⟨⟨a', g⟩, hanswer, heq⟩ := Option.map_eq_some_iff.mp ha
  cases heq
  obtain ⟨⟨hinv', hsince, hallowed⟩, hr⟩ := h w x a' g hinv hp hx hanswer
  exact ⟨hinv', ⟨hsince, hallowed⟩, hP (q := p) (e := .ask q) hinv hinv' ⟨hsince, hallowed⟩ hp, hr⟩

/-- A question that leaves the history alone. -/
theorem yields_ask {q : Ask}
    (h : ∀ x a g g', surroundings.answer p.1 q x g = some (a, g') → g' = g) :
    (spec.setting surroundings body D).Yields p
      (Prog.perform (RecordEffect.ask q) :
        Prog (RecordEffect Key Val Ask) (RecordEffect.Answer Ans) η (Ans q))
      fun a ↦ ∃ x g, surroundings.answer p.1 q x g = some (a, g) := by
  refine Setting.yields_perform fun w x a w' hinv _ _ ha ↦ ?_
  obtain ⟨⟨a', g⟩, hanswer, heq⟩ := Option.map_eq_some_iff.mp ha
  cases heq
  obtain rfl := h _ _ _ _ hanswer
  obtain ⟨_, hsince, hallowed⟩ := steps_refl (p := p) hinv
  exact ⟨hinv, ⟨hsince, hallowed⟩, x.answer, w.ghost, hanswer⟩

end RecordSpec

/-! ## A caller on its own

When nobody interferes, commits find the records as they were read, and are acknowledged. -/

section

variable (surroundings : Surroundings Key Val Ask Ans Ghost χ)
  (body : Call → Prog (RecordEffect Key Val Ask) (RecordEffect.Answer Ans) ε α)
  {pid : ℕ} {w : RecordWorld Key Val Ghost}

theorem alone_get (k : Key) (x : RecordChoice χ) :
    Alone (surroundings.service body) .free pid w
      (Prog.perform (.get k) : Prog (RecordEffect Key Val Ask) (RecordEffect.Answer Ans) η _) w
      (.ret (w.records k)) :=
  .call (x := x) trivial rfl (.refl _ _)

theorem alone_commit {ws : List (Write Key Val)} {st : Store Key Val} (x : χ)
    (h : w.records.commit ws = some st) :
    Alone (surroundings.service body) .free pid w
      (Prog.perform (.commit ws) : Prog (RecordEffect Key Val Ask) (RecordEffect.Answer Ans) η _)
      ⟨st, surroundings.observe pid w.records st w.ghost⟩ (.ret Reply.done) := by
  refine .call (x := ⟨x, .acknowledged⟩) trivial ?_ (.refl _ _)
  simp [Surroundings.service, Surroundings.handle, h, Fate.settle]

theorem alone_ask {q : Ask} {x : χ} {a : Ans q} {g : Ghost}
    (h : surroundings.answer pid q x w.ghost = some (a, g)) :
    Alone (surroundings.service body) .free pid w
      (Prog.perform (.ask q) : Prog (RecordEffect Key Val Ask) (RecordEffect.Answer Ans) η _)
      ⟨w.records, g⟩ (.ret a) := by
  refine .call (x := ⟨x, .acknowledged⟩) trivial ?_ (.refl _ _)
  simp [Surroundings.service, Surroundings.handle, h]

end

end Concurrent
