import Mathlib.Data.Nat.Notation
import Mathlib.Logic.Function.Basic
import RatThings.Library.Program

/-!
# Interleavings of a service

A service is a shared state, a program for each of its methods, and the effect each request has on
the state. Any number of calls run at once: a call may start at any time, and at each step the
environment picks one waiting call and answers its request. What the environment is free to decide
(whether an acknowledgement arrives, which identifier is fresh, what a clock shows) is the *choice*
that goes with the answer.

## Crashes and results

A caller that crashes is one that is never resumed, so nothing models crashing separately. A call
that has ended stays in its configuration as a `ret` or a `raise`; this is how a statement about a
run speaks of acknowledged calls.
-/

namespace Concurrent

/-- The methods of a service and the effect of their requests. An answer of `none` means that the
choice is not one the environment has in this state. -/
structure Service (σ E : Type) (A : E → Type) (ε α Call χ : Type) where
  /-- The program of a call. -/
  body : Call → Prog E A ε α
  /-- Answer the request `e` of a call. The number identifies the call. -/
  handle : ℕ → (e : E) → χ → σ → Option (A e × σ)

/-- One choice of the scheduler. -/
inductive Event (Call χ : Type) : Type
  | start (pid : ℕ) (c : Call)
  | resume (pid : ℕ) (x : χ)

/-- The call that an event is about. -/
def Event.pid {Call χ : Type} : Event Call χ → ℕ
  | .start pid _ => pid
  | .resume pid _ => pid

/-- The shared state and every call so far, with what is left of its program. -/
structure Config (σ E : Type) (A : E → Type) (ε α Call : Type) where
  state : σ
  procs : ℕ → Option (Call × Prog E A ε α)

/-- Restrictions on the environment: which calls may start, and which choices may answer a request
in a given state. -/
structure Discipline (σ E Call χ : Type) where
  starts : ℕ → Call → σ → Prop
  answers : ℕ → E → χ → σ → Prop

variable {σ E : Type} {A : E → Type} {ε α Call χ : Type}

/-- The environment is unrestricted. -/
def Discipline.free : Discipline σ E Call χ := ⟨fun _ _ _ ↦ True, fun _ _ _ _ ↦ True⟩

/-- A discipline whose restrictions can be evaluated. -/
class Discipline.Checked (D : Discipline σ E Call χ) where
  starts : ∀ pid c s, Decidable (D.starts pid c s)
  answers : ∀ pid e x s, Decidable (D.answers pid e x s)

instance : Discipline.Checked (Discipline.free : Discipline σ E Call χ) :=
  ⟨fun _ _ _ ↦ .isTrue trivial, fun _ _ _ _ ↦ .isTrue trivial⟩

/-- The configuration in which no call has started. -/
def Config.initial (s : σ) : Config σ E A ε α Call := ⟨s, fun _ ↦ none⟩

/-- The call and how it ended, if it has. -/
def Config.outcome (c : Config σ E A ε α Call) (pid : ℕ) : Option (Call × Option (Except ε α)) :=
  (c.procs pid).map fun p ↦ (p.1, p.2.result?)

theorem Config.procs_of_outcome {c : Config σ E A ε α Call} {pid : ℕ} {call : Call} {a : α}
    (h : c.outcome pid = some (call, some (.ok a))) : c.procs pid = some (call, .ret a) := by
  obtain ⟨⟨call', m⟩, hproc, hfields⟩ := Option.map_eq_some_iff.mp h
  obtain ⟨rfl, hm⟩ := Prod.mk.inj hfields
  have hret : m = .ret a := Prog.eq_ret_of_result? hm
  rw [hproc, hret]

theorem Config.procs_of_outcome_error {c : Config σ E A ε α Call} {pid : ℕ} {call : Call} {e : ε}
    (h : c.outcome pid = some (call, some (.error e))) : c.procs pid = some (call, .raise e) := by
  obtain ⟨⟨call', m⟩, hproc, hfields⟩ := Option.map_eq_some_iff.mp h
  obtain ⟨rfl, hm⟩ := Prod.mk.inj hfields
  have hraise : m = .raise e := Prog.eq_raise_of_result? hm
  rw [hproc, hraise]

/-- The request that a call waits for, if it does. -/
def Config.request (c : Config σ E A ε α Call) (pid : ℕ) : Option E :=
  match c.procs pid with
  | some (_, .call e _) => some e
  | _ => none

theorem Config.procs_of_request {c : Config σ E A ε α Call} {pid : ℕ} {e : E}
    (h : c.request pid = some e) : ∃ call k, c.procs pid = some (call, .call e k) := by
  unfold request at h
  split at h
  · next call e' k hproc =>
    obtain rfl := Option.some.inj h
    exact ⟨call, k, hproc⟩
  · cases h

namespace Service

variable (S : Service σ E A ε α Call χ)

/-- One step. A call identifier is used once, and only a waiting call can be resumed. -/
def step (c : Config σ E A ε α Call) : Event Call χ → Option (Config σ E A ε α Call)
  | .start pid call =>
    match c.procs pid with
    | none => some ⟨c.state, Function.update c.procs pid (some (call, S.body call))⟩
    | some _ => none
  | .resume pid x =>
    match c.procs pid with
    | some (call, .call e k) =>
      (S.handle pid e x c.state).map fun r ↦
        ⟨r.2, Function.update c.procs pid (some (call, k r.1))⟩
    | _ => none

variable (D : Discipline σ E Call χ)

/-- The event is one the discipline permits in this configuration. -/
def Permits (c : Config σ E A ε α Call) : Event Call χ → Prop
  | .start pid call => D.starts pid call c.state
  | .resume pid x =>
    match c.procs pid with
    | some (_, .call e _) => D.answers pid e x c.state
    | _ => True

/-- `c'` can be reached from `c` by permitted steps. -/
inductive Leads (c : Config σ E A ε α Call) : Config σ E A ε α Call → Prop
  | refl : Leads c c
  | step {c₁ c₂ : Config σ E A ε α Call} {ev : Event Call χ} : Leads c c₁ → Permits D c₁ ev →
      S.step c₁ ev = some c₂ → Leads c c₂

/-- A configuration of some run from the initial state `s`. -/
def Reachable (s : σ) (c : Config σ E A ε α Call) : Prop := Leads S D (.initial s) c

variable {S D}

theorem permits_free (c : Config σ E A ε α Call) (ev : Event Call χ) :
    Permits Discipline.free c ev := by
  cases ev with
  | start pid call => trivial
  | resume pid x =>
    simp only [Permits]
    split <;> trivial

theorem Leads.trans {c₁ c₂ c₃ : Config σ E A ε α Call} (h : Leads S D c₁ c₂)
    (h' : Leads S D c₂ c₃) : Leads S D c₁ c₃ := by
  induction h' with
  | refl => exact h
  | step _ hp hs ih => exact ih.step hp hs

/-- A run under a stricter discipline. -/
theorem Leads.mono {D' : Discipline σ E Call χ} {c c' : Config σ E A ε α Call}
    (h : Leads S D' c c') (hstarts : ∀ pid call s, D'.starts pid call s → D.starts pid call s)
    (hanswers : ∀ pid e x s, D'.answers pid e x s → D.answers pid e x s) : Leads S D c c' := by
  induction h with
  | refl => exact .refl
  | @step c₁ c₂ ev _ hp hs ih =>
    refine ih.step ?_ hs
    cases ev with
    | start pid call => exact hstarts pid call _ hp
    | resume pid x =>
      simp only [Permits] at hp ⊢
      split
      · next hproc =>
        rw [hproc] at hp
        exact hanswers pid _ x _ hp
      · trivial

/-! ## Executions

A list of events can be run under a discipline, provided its restrictions can be decided. -/

instance decidablePermits (D : Discipline σ E Call χ) [hD : D.Checked]
    (c : Config σ E A ε α Call) : (ev : Event Call χ) → Decidable (Permits D c ev)
  | .start pid call => hD.starts pid call c.state
  | .resume pid x =>
    match h : c.procs pid with
    | some (_, .call e _) =>
      let _ := hD.answers pid e x c.state
      decidable_of_iff (D.answers pid e x c.state) (by simp only [Permits, h])
    | some (_, .ret _) => .isTrue (by simp only [Permits, h])
    | some (_, .raise _) => .isTrue (by simp only [Permits, h])
    | none => .isTrue (by simp only [Permits, h])

/-- The steps of a list of events, in order, as long as each is permitted. -/
def run (S : Service σ E A ε α Call χ) (D : Discipline σ E Call χ) [D.Checked]
    (evs : List (Event Call χ)) (c : Config σ E A ε α Call) : Option (Config σ E A ε α Call) :=
  evs.foldlM (fun c ev ↦ if Permits D c ev then S.step c ev else none) c

/-- An executed list of events is a run. -/
theorem leads_of_run {D : Discipline σ E Call χ} [D.Checked] {evs : List (Event Call χ)}
    {c c' : Config σ E A ε α Call} (h : S.run D evs c = some c') : Leads S D c c' := by
  induction evs generalizing c with
  | nil =>
    cases h
    exact .refl
  | cons ev evs ih =>
    rw [run, List.foldlM_cons, Option.bind_eq_bind, Option.bind_eq_some_iff] at h
    obtain ⟨c₁, hs, hr⟩ := h
    split at hs
    · next hp => exact (Leads.refl.step hp hs).trans (ih hr)
    · cases hs

/-- What a step of an existing call does. -/
theorem step_resume_eq_some {c c' : Config σ E A ε α Call} {pid : ℕ} {x : χ}
    (h : S.step c (.resume pid x) = some c') :
    ∃ call e k a, c.procs pid = some (call, .call e k) ∧
      S.handle pid e x c.state = some (a, c'.state) ∧
      c'.procs = Function.update c.procs pid (some (call, k a)) := by
  simp only [step] at h
  split at h
  · next call e k hp =>
    obtain ⟨⟨a, s⟩, ha, rfl⟩ := Option.map_eq_some_iff.mp h
    exact ⟨call, e, k, a, hp, ha, rfl⟩
  · cases h

theorem step_start_eq_some {c c' : Config σ E A ε α Call} {pid : ℕ} {call : Call}
    (h : S.step c (.start pid call) = some c') :
    c.procs pid = none ∧ c'.state = c.state ∧
      c'.procs = Function.update c.procs pid (some (call, S.body call)) := by
  simp only [step] at h
  split at h
  · next hp =>
    cases h
    exact ⟨hp, rfl, rfl⟩
  · cases h

/-- A run that ends with the start of a call leaves the call at its beginning. -/
theorem procs_of_run_start {D : Discipline σ E Call χ} [D.Checked] {evs : List (Event Call χ)}
    {pid : ℕ} {call : Call} {c c' : Config σ E A ε α Call}
    (h : S.run D (evs ++ [.start pid call]) c = some c') :
    c'.procs pid = some (call, S.body call) := by
  rw [run, List.foldlM_append, Option.bind_eq_bind, Option.bind_eq_some_iff] at h
  obtain ⟨c₁, -, hstart⟩ := h
  rw [List.foldlM_cons, Option.bind_eq_bind, Option.bind_eq_some_iff] at hstart
  obtain ⟨c₂, hs, hrest⟩ := hstart
  cases hrest
  split at hs
  · obtain ⟨-, -, hprocs⟩ := step_start_eq_some hs
    rw [hprocs, Function.update_self]
  · cases hs

/-- A call that was not there before has begun in between. -/
theorem Leads.started {c c' : Config σ E A ε α Call} (h : Leads S D c c') {pid : ℕ} {call : Call}
    {m : Prog E A ε α} (hnone : c.procs pid = none) (hproc : c'.procs pid = some (call, m)) :
    ∃ c₀, Leads S D c c₀ ∧ c₀.procs pid = some (call, S.body call) ∧ Leads S D c₀ c' := by
  induction h generalizing m with
  | refl =>
    rw [hnone] at hproc
    cases hproc
  | @step c₁ c₂ ev hl hp hs ih =>
    cases ev with
    | start q call' =>
      obtain ⟨-, -, hprocs⟩ := step_start_eq_some hs
      rw [hprocs, Function.update_apply] at hproc
      split at hproc
      · next hq =>
        cases hproc
        refine ⟨c₂, hl.step hp hs, ?_, .refl⟩
        rw [hprocs, hq, Function.update_self]
      · obtain ⟨c₀, h₀, hbody, hlead⟩ := ih hproc
        exact ⟨c₀, h₀, hbody, hlead.step hp hs⟩
    | resume q x =>
      obtain ⟨call', e, k, a, hq, -, hprocs⟩ := step_resume_eq_some hs
      have hbefore : ∃ m', c₁.procs pid = some (call, m') := by
        rw [hprocs, Function.update_apply] at hproc
        split at hproc
        · next hpid =>
          cases hproc
          exact ⟨_, hpid ▸ hq⟩
        · exact ⟨m, hproc⟩
      obtain ⟨m', hproc'⟩ := hbefore
      obtain ⟨c₀, h₀, hbody, hlead⟩ := ih hproc'
      exact ⟨c₀, h₀, hbody, hlead.step hp hs⟩

/-- Every call of a run has begun in that run. -/
theorem Reachable.started {s : σ} {c : Config σ E A ε α Call} (h : Reachable S D s c) {pid : ℕ}
    {call : Call} {m : Prog E A ε α} (hproc : c.procs pid = some (call, m)) :
    ∃ c₀, Reachable S D s c₀ ∧ c₀.procs pid = some (call, S.body call) ∧ Leads S D c₀ c :=
  Leads.started h rfl hproc

/-- Only finitely many calls have begun. -/
theorem Reachable.bounded {s : σ} {c : Config σ E A ε α Call} (h : Reachable S D s c) :
    ∃ bound, ∀ pid, bound ≤ pid → c.procs pid = none := by
  induction h with
  | refl => exact ⟨0, fun _ _ ↦ rfl⟩
  | @step c₁ c₂ ev _ _ hs ih =>
    obtain ⟨bound, hbound⟩ := ih
    cases ev with
    | start q call =>
      obtain ⟨-, -, hprocs⟩ := step_start_eq_some hs
      refine ⟨max bound (q + 1), fun pid hpid ↦ ?_⟩
      rw [hprocs, Function.update_of_ne (by omega)]
      exact hbound pid (by omega)
    | resume q x =>
      obtain ⟨call, e, k, a, hq, -, hprocs⟩ := step_resume_eq_some hs
      refine ⟨bound, fun pid hpid ↦ ?_⟩
      have hne : pid ≠ q := by
        rintro rfl
        rw [hbound pid hpid] at hq
        cases hq
      rw [hprocs, Function.update_of_ne hne]
      exact hbound pid hpid

/-! ## A call on its own

A call that is resumed again and again while the others wait goes from state to state by itself. -/

variable {η β γ : Type}

/-- The program leads to `m'` in the state `t`, if it runs alone from the state `s`. -/
inductive Alone (S : Service σ E A ε α Call χ) (D : Discipline σ E Call χ) (pid : ℕ) :
    σ → Prog E A η β → σ → Prog E A η β → Prop
  | refl (s : σ) (m : Prog E A η β) : Alone S D pid s m s m
  | call {s t u : σ} {e : E} {k : A e → Prog E A η β} {m : Prog E A η β} {x : χ} {a : A e} :
      D.answers pid e x s → S.handle pid e x s = some (a, t) → Alone S D pid t (k a) u m →
        Alone S D pid s (.call e k) u m

theorem Alone.trans {pid : ℕ} {s t u : σ} {m m' m'' : Prog E A η β} (h : Alone S D pid s m t m')
    (h' : Alone S D pid t m' u m'') : Alone S D pid s m u m'' := by
  induction h with
  | refl => exact h'
  | call hx ha _ ih => exact .call hx ha (ih h')

/-- A program that comes to its end goes on with what follows it. -/
theorem Alone.bind {pid : ℕ} {s t : σ} {m m' : Prog E A η β} (h : Alone S D pid s m t m')
    (f : β → Prog E A η γ) : Alone S D pid s (m >>= f) t (m' >>= f) := by
  induction h with
  | refl => exact .refl _ _
  | call hx ha _ ih => exact .call hx ha ih

/-- What a call can do alone it can do in a run. -/
theorem Alone.leads {pid : ℕ} {call : Call} {c : Config σ E A ε α Call} {s t : σ}
    {m m' : Prog E A ε α} (h : Alone S D pid s m t m') (hstate : c.state = s)
    (hproc : c.procs pid = some (call, m)) :
    ∃ c', Leads S D c c' ∧ c'.state = t ∧ c'.procs pid = some (call, m') := by
  induction h generalizing c with
  | refl => exact ⟨c, .refl, hstate, hproc⟩
  | @call s t u e k m x a hx ha _ ih =>
    subst hstate
    let next : Config σ E A ε α Call := ⟨t, Function.update c.procs pid (some (call, k a))⟩
    have hstep : S.step c (.resume pid x) = some next := by simp [step, hproc, ha, next]
    have hpermits : Permits D c (.resume pid x) := by simpa only [Permits, hproc] using hx
    have hnext : next.procs pid = some (call, k a) := Function.update_self ..
    obtain ⟨c', hleads, hstate', hproc'⟩ := ih rfl hnext
    exact ⟨c', (Leads.refl.step hpermits hstep).trans hleads, hstate', hproc'⟩

/-! ## Progress

A waiting call makes progress if its request can be answered at any time, whatever the others have
done since it was issued. A bound on the requests that are left then bounds how often the scheduler
has to pick the call before it returns. How often it picks the others makes no difference.
-/

/-- `c'` can be reached from `c` by steps of other calls. -/
inductive Elsewhere (S : Service σ E A ε α Call χ) (D : Discipline σ E Call χ) (pid : ℕ)
    (c : Config σ E A ε α Call) : Config σ E A ε α Call → Prop
  | refl : Elsewhere S D pid c c
  | step {c₁ c₂ : Config σ E A ε α Call} {ev : Event Call χ} : Elsewhere S D pid c c₁ →
      ev.pid ≠ pid → Permits D c₁ ev → S.step c₁ ev = some c₂ → Elsewhere S D pid c c₂

/-- The call returns when it has been answered `n` times, or before, and nothing that the others do
keeps it from being answered. -/
def ReturnsWithin (S : Service σ E A ε α Call χ) (D : Discipline σ E Call χ) (pid : ℕ) :
    ℕ → Config σ E A ε α Call → Prop
  | 0, c => ∃ call a, c.procs pid = some (call, .ret a)
  | n + 1, c => (∃ call a, c.procs pid = some (call, .ret a)) ∨
      ∀ c₁, Elsewhere S D pid c c₁ →
        (∃ x c₂, Permits D c₁ (.resume pid x) ∧ S.step c₁ (.resume pid x) = some c₂) ∧
        ∀ x c₂, Permits D c₁ (.resume pid x) → S.step c₁ (.resume pid x) = some c₂ →
          ReturnsWithin S D pid n c₂

end Service

end Concurrent
