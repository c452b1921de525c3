import RatThings.Library.Interleaving

/-!
# Rely–guarantee reasoning for interleaved calls

A method is verified once, against what every *other* call may do to the state while it waits. The
shared part is a `Setting`: an invariant of the state, and for each call the relation its own steps
stay inside (its guarantee). An assertion is *stable* for a call when no step that another call
guarantees can break it; a call may only rest on stable assertions while it waits for an answer.

`Setting.Meets` is the judgement, with one rule for each constructor of a program, and
`Setting.Verified.reachable` turns judgements about the methods into facts about every run.
-/

namespace Concurrent

open Service

/-- What the proofs about a service's methods share. -/
structure Setting (σ E : Type) (A : E → Type) (ε α Call χ : Type) where
  service : Service σ E A ε α Call χ
  discipline : Discipline σ E Call χ
  /-- Holds before and after every step. -/
  inv : σ → Prop
  /-- What the answer to this request of this call may do. -/
  guar : ℕ × Call → E → σ → σ → Prop

namespace Setting

variable {σ E : Type} {A : E → Type} {ε ε' η α Call χ β γ : Type}
variable (V : Setting σ E A ε α Call χ)

/-- No step of another call breaks the assertion. -/
def Stable (p : ℕ × Call) (P : σ → Prop) : Prop :=
  ∀ ⦃q e s t⦄, q.1 ≠ p.1 → V.inv s → V.inv t → V.guar q e s t → P s → P t

/-- No step of any call breaks the assertion. -/
def Permanent (P : σ → Prop) : Prop :=
  ∀ ⦃q e s t⦄, V.inv s → V.inv t → V.guar q e s t → P s → P t

/-- The answer to one request, as a triple. -/
def Answers (p : ℕ × Call) (e : E) (P : σ → Prop) (P' : A e → σ → Prop) : Prop :=
  ∀ ⦃s x a t⦄, V.inv s → P s → V.discipline.answers p.1 e x s →
    V.service.handle p.1 e x s = some (a, t) → V.inv t ∧ V.guar p e s t ∧ P' a t

/-- What is left of a program may run from this state: each request is issued under a stable
assertion that makes its answer safe, and the results satisfy `Q` and `T`. -/
def Safe (p : ℕ × Call) (Q : β → σ → Prop) (T : η → σ → Prop) : Prog E A η β → σ → Prop
  | .ret b, s => Q b s
  | .raise e, s => T e s
  | .call e k, s => ∃ P, V.Stable p P ∧ P s ∧ V.Answers p e P fun a ↦ Safe p Q T (k a)

/-- The judgement: started in a state satisfying `P`, the program runs safely among the other
calls, returns `b` only where `Q b` holds and raises `e` only where `T e` holds. -/
def Meets (p : ℕ × Call) (P : σ → Prop) (m : Prog E A η β) (Q : β → σ → Prop) (T : η → σ → Prop) :
    Prop :=
  ∀ s, V.inv s → P s → V.Safe p Q T m s

variable {V} {p : ℕ × Call} {P P' : σ → Prop} {Q Q' : β → σ → Prop} {T T' : η → σ → Prop}

/-! ## Stable assertions -/

theorem Permanent.stable (h : V.Permanent P) : V.Stable p P :=
  fun _ _ _ _ _ hs ht hg ↦ h hs ht hg

theorem stable_true : V.Stable p fun _ ↦ True := fun _ _ _ _ _ _ _ _ _ ↦ trivial

theorem Stable.and (h : V.Stable p P) (h' : V.Stable p P') :
    V.Stable p fun s ↦ P s ∧ P' s :=
  fun _ _ _ _ hq hs ht hg hp ↦ ⟨h hq hs ht hg hp.1, h' hq hs ht hg hp.2⟩

/-! ## The rules -/

theorem meets_ret {b : β} (h : ∀ s, V.inv s → P s → Q b s) : V.Meets p P (.ret b) Q T := h

theorem meets_raise {e : η} (h : ∀ s, V.inv s → P s → T e s) :
    V.Meets p P (.raise e : Prog E A η β) Q T := h

/-- One request: the assertion before it is stable, and each answer leads to the rest. -/
theorem meets_call {e : E} {k : A e → Prog E A η β} (P' : A e → σ → Prop)
    (hP : V.Stable p P) (he : V.Answers p e P P') (hk : ∀ a, V.Meets p (P' a) (k a) Q T) :
    V.Meets p P (.call e k) Q T := by
  intro s _ hp
  refine ⟨P, hP, hp, fun s x a t hs hp hx ha ↦ ?_⟩
  obtain ⟨ht, hg, hp'⟩ := he hs hp hx ha
  exact ⟨ht, hg, hk a t ht hp'⟩

theorem meets_perform {e : E} (hP : V.Stable p P) {Q : A e → σ → Prop}
    (he : V.Answers p e P Q) : V.Meets p P (Prog.perform e) Q T :=
  meets_call Q hP he fun _ ↦ meets_ret fun _ _ h ↦ h

theorem Safe.mono (hQ : ∀ b s, V.inv s → Q b s → Q' b s) (hT : ∀ e s, V.inv s → T e s → T' e s)
    {m : Prog E A η β} {s : σ} (hs : V.inv s) (h : V.Safe p Q T m s) : V.Safe p Q' T' m s := by
  induction m generalizing s with
  | ret b => exact hQ b s hs h
  | raise e => exact hT e s hs h
  | call e k ih =>
    obtain ⟨P, hP, hp, hk⟩ := h
    refine ⟨P, hP, hp, fun s x a t hs hp hx ha ↦ ?_⟩
    obtain ⟨ht, hg, hm⟩ := hk hs hp hx ha
    exact ⟨ht, hg, ih a ht hm⟩

theorem Meets.conseq {m : Prog E A η β} (h : V.Meets p P m Q T)
    (hP : ∀ s, V.inv s → P' s → P s) (hQ : ∀ b s, V.inv s → Q b s → Q' b s)
    (hT : ∀ e s, V.inv s → T e s → T' e s) : V.Meets p P' m Q' T' :=
  fun s hs hp ↦ (h s hs (hP s hs hp)).mono hQ hT hs

theorem Meets.pre {m : Prog E A η β} (h : V.Meets p P m Q T)
    (hP : ∀ s, V.inv s → P' s → P s) : V.Meets p P' m Q T :=
  h.conseq hP (fun _ _ _ hq ↦ hq) fun _ _ _ ht ↦ ht

theorem Safe.bind {m : Prog E A η β} {f : β → Prog E A η γ} {M : β → σ → Prop}
    {Q : γ → σ → Prop} (hf : ∀ b, V.Meets p (M b) (f b) Q T) {s : σ} (hs : V.inv s)
    (h : V.Safe p M T m s) :
    V.Safe p Q T (m >>= f) s := by
  induction m generalizing s with
  | ret b => exact hf b s hs h
  | raise e => exact h
  | call e k ih =>
    obtain ⟨P, hP, hp, hk⟩ := h
    refine ⟨P, hP, hp, fun s x a t hs hp hx ha ↦ ?_⟩
    obtain ⟨ht, hg, hm⟩ := hk hs hp hx ha
    exact ⟨ht, hg, ih a ht hm⟩

theorem Meets.bind {m : Prog E A η β} {f : β → Prog E A η γ} {M : β → σ → Prop}
    {Q : γ → σ → Prop} (hm : V.Meets p P m M T) (hf : ∀ b, V.Meets p (M b) (f b) Q T) :
    V.Meets p P (m >>= f) Q T :=
  fun s hs hp ↦ (hm s hs hp).bind hf hs

theorem Safe.catching {m : Prog E A ε' β} {f : ε' → Prog E A η β} {U : ε' → σ → Prop}
    (hf : ∀ e, V.Meets p (U e) (f e) Q T) {s : σ} (hs : V.inv s)
    (h : V.Safe p Q U m s) : V.Safe p Q T (m.catching f) s := by
  induction m generalizing s with
  | ret b => exact h
  | raise e => exact hf e s hs h
  | call e k ih =>
    obtain ⟨P, hP, hp, hk⟩ := h
    refine ⟨P, hP, hp, fun s x a t hs hp hx ha ↦ ?_⟩
    obtain ⟨ht, hg, hm⟩ := hk hs hp hx ha
    exact ⟨ht, hg, ih a ht hm⟩

theorem Meets.catching {m : Prog E A ε' β} {f : ε' → Prog E A η β} {U : ε' → σ → Prop}
    (hm : V.Meets p P m Q U) (hf : ∀ e, V.Meets p (U e) (f e) Q T) :
    V.Meets p P (m.catching f) Q T :=
  fun s hs hp ↦ (hm s hs hp).catching hf hs

/-- A clean-up runs after every end of the program. -/
theorem Meets.ensuring {m : Prog E A η β} {c : Prog E A η Unit} {M : β → σ → Prop}
    {U : η → σ → Prop} (hm : V.Meets p P m M U)
    (hret : ∀ b, V.Meets p (M b) c (fun _ ↦ Q b) T)
    (hraise : ∀ e, V.Meets p (U e) c (fun _ ↦ T e) T) : V.Meets p P (m.ensuring c) Q T := by
  refine Meets.bind (Meets.catching hm fun e ↦ ?_) fun b ↦ ?_
  · exact Meets.bind (hraise e) fun _ ↦ meets_raise fun _ _ h ↦ h
  · exact Meets.bind (hret b) fun _ ↦ meets_ret fun _ _ h ↦ h

/-- What no step of any call breaks is kept across a whole program. -/
theorem Safe.frame {F : σ → Prop} (hF : V.Permanent F) {m : Prog E A η β} {s : σ} (hf : F s)
    (h : V.Safe p Q T m s) :
    V.Safe p (fun b s ↦ F s ∧ Q b s) (fun e s ↦ F s ∧ T e s) m s := by
  induction m generalizing s with
  | ret b => exact ⟨hf, h⟩
  | raise e => exact ⟨hf, h⟩
  | call e k ih =>
    obtain ⟨P, hP, hp, hk⟩ := h
    refine ⟨fun s ↦ F s ∧ P s, hF.stable.and hP, ⟨hf, hp⟩, fun s x a t hs hp hx ha ↦ ?_⟩
    obtain ⟨ht, hg, hm⟩ := hk hs hp.2 hx ha
    exact ⟨ht, hg, ih a (hF hs ht hg hp.1) hm⟩

theorem Meets.frame {F : σ → Prop} (hF : V.Permanent F) {m : Prog E A η β}
    (h : V.Meets p P m Q T) :
    V.Meets p (fun s ↦ F s ∧ P s) m (fun b s ↦ F s ∧ Q b s) fun e s ↦ F s ∧ T e s :=
  fun s hs hp ↦ (h s hs hp.2).frame hF hp.1

/-- What the requests of a program do not break is kept across it, if no step of another call breaks
it either. -/
theorem Safe.frame_within {F : σ → Prop} {R : E → Prop} (hF : V.Stable p F)
    (hown : ∀ ⦃e s x a t⦄, R e → V.inv s → V.inv t → V.discipline.answers p.1 e x s →
      V.service.handle p.1 e x s = some (a, t) → V.guar p e s t → F s → F t)
    {m : Prog E A η β} (hm : m.Within R) {s : σ} (hf : F s) (h : V.Safe p Q T m s) :
    V.Safe p (fun b s ↦ F s ∧ Q b s) (fun e s ↦ F s ∧ T e s) m s := by
  induction m generalizing s with
  | ret b => exact ⟨hf, h⟩
  | raise e => exact ⟨hf, h⟩
  | call e k ih =>
    obtain ⟨P, hP, hp, hk⟩ := h
    refine ⟨fun s ↦ F s ∧ P s, hF.and hP, ⟨hf, hp⟩, fun s x a t hs hp hx ha ↦ ?_⟩
    obtain ⟨ht, hg, hrest⟩ := hk hs hp.2 hx ha
    exact ⟨ht, hg, ih a (hm.2 a) (hown hm.1 hs ht hx ha hg hp.1) hrest⟩

theorem Meets.frame_within {F : σ → Prop} {R : E → Prop} (hF : V.Stable p F)
    (hown : ∀ ⦃e s x a t⦄, R e → V.inv s → V.inv t → V.discipline.answers p.1 e x s →
      V.service.handle p.1 e x s = some (a, t) → V.guar p e s t → F s → F t)
    {m : Prog E A η β} (hm : m.Within R) (h : V.Meets p P m Q T) :
    V.Meets p (fun s ↦ F s ∧ P s) m (fun b s ↦ F s ∧ Q b s) fun e s ↦ F s ∧ T e s :=
  fun s hs hp ↦ (h s hs hp.2).frame_within hF hown hm hp.1

/-- A method that was verified among calls that may do more keeps its specification among calls that
do less. -/
theorem Safe.among (guar' : ℕ × Call → E → σ → σ → Prop)
    (hrely : ∀ q e s t, V.guar q e s t → guar' q e s t)
    (hown : ∀ e s t, guar' p e s t → V.guar p e s t) {m : Prog E A η β} {s : σ}
    (h : ({ V with guar := guar' } : Setting σ E A ε α Call χ).Safe p Q T m s) :
    V.Safe p Q T m s := by
  induction m generalizing s with
  | ret b => exact h
  | raise e => exact h
  | call e k ih =>
    obtain ⟨P, hP, hp, hk⟩ := h
    refine ⟨P, fun q e s t hq hs ht hg hps ↦ hP hq hs ht (hrely q e s t hg) hps, hp, ?_⟩
    intro s x a t hs hps hx ha
    obtain ⟨ht, hg, hm⟩ := hk hs hps hx ha
    exact ⟨ht, hown e s t hg, ih a hm⟩

theorem Meets.among (guar' : ℕ × Call → E → σ → σ → Prop)
    (hrely : ∀ q e s t, V.guar q e s t → guar' q e s t)
    (hown : ∀ e s t, guar' p e s t → V.guar p e s t) {m : Prog E A η β}
    (h : ({ V with guar := guar' } : Setting σ E A ε α Call χ).Meets p P m Q T) :
    V.Meets p P m Q T :=
  fun s hs hp ↦ (h s hs hp).among guar' hrely hown

/-! ## Programs that need no assertion about the state

Where the invariant alone makes every request safe, an assertion only has to say something about
the values a program holds. -/

/-- The program runs safely from any state of the invariant, and what it returns satisfies `Q`. -/
def Yields (V : Setting σ E A ε α Call χ) (p : ℕ × Call) (m : Prog E A η β) (Q : β → Prop) : Prop :=
  V.Meets p (fun _ ↦ True) m (fun b _ ↦ Q b) fun _ _ ↦ True

section Yields

variable {F F' : β → Prop}

theorem yields_ret {b : β} (h : F b) : V.Yields p (.ret b : Prog E A η β) F :=
  meets_ret fun _ _ _ ↦ h

theorem yields_raise {e : η} : V.Yields p (.raise e : Prog E A η β) F :=
  meets_raise fun _ _ _ ↦ trivial

theorem yields_perform {e : E} {F : A e → Prop}
    (h : V.Answers p e (fun _ ↦ True) fun a _ ↦ F a) :
    V.Yields p (Prog.perform e : Prog E A η (A e)) F :=
  meets_perform stable_true h

theorem Yields.bind {m : Prog E A η β} {f : β → Prog E A η γ} {F' : γ → Prop}
    (hm : V.Yields p m F) (hf : ∀ b, F b → V.Yields p (f b) F') :
    V.Yields p (m >>= f) F' :=
  Meets.bind hm fun b s hs hb ↦ hf b hb s hs trivial

theorem Yields.catching {m : Prog E A ε' β} {f : ε' → Prog E A η β}
    (hm : V.Yields p m F) (hf : ∀ e, V.Yields p (f e) F) : V.Yields p (m.catching f) F :=
  Meets.catching hm hf

theorem Yields.mono {m : Prog E A η β} (hm : V.Yields p m F) (h : ∀ b, F b → F' b) :
    V.Yields p m F' :=
  Meets.conseq hm (fun _ _ _ ↦ trivial) (fun b _ _ ↦ h b) fun _ _ _ _ ↦ trivial

/-- What no step breaks holds across a program that needs no assertion. -/
theorem Yields.framed {P : σ → Prop} (hP : V.Permanent P) {m : Prog E A η β}
    (hm : V.Yields p m F) :
    V.Meets p P m (fun b s ↦ P s ∧ F b) fun _ s ↦ P s :=
  (hm.frame hP).conseq (fun _ _ hp ↦ ⟨hp, trivial⟩) (fun _ _ _ hq ↦ hq) fun _ _ _ ht ↦ ht.1

theorem Yields.seq {P : σ → Prop} (hP : V.Permanent P) {m : Prog E A η β}
    {f : β → Prog E A η γ} {Q : γ → σ → Prop} (hm : V.Yields p m F)
    (hf : ∀ b, F b → V.Meets p P (f b) Q fun _ _ ↦ True) :
    V.Meets p P (m >>= f) Q fun _ _ ↦ True :=
  Meets.bind ((hm.framed hP).conseq (fun _ _ hp ↦ hp) (fun _ _ _ hq ↦ hq) fun _ _ _ _ ↦ trivial)
    fun b s hs hb ↦ hf b hb.2 s hs hb.1

theorem Yields.andThen {m : Prog E A η β} {f : β → Prog E A η γ} {Q : γ → σ → Prop}
    (hm : V.Yields p m F)
    (hf : ∀ b, F b → V.Meets p (fun _ ↦ True) (f b) Q fun _ _ ↦ True) :
    V.Meets p (fun _ ↦ True) (m >>= f) Q fun _ _ ↦ True :=
  hm.seq (fun _ _ _ _ _ _ _ _ ↦ trivial) hf

theorem Yields.forget {m : Prog E A η β} (hm : V.Yields p m F) :
    V.Yields p m fun _ ↦ True :=
  hm.mono fun _ _ ↦ trivial

/-- A program all of whose requests are safe from any state of the invariant. -/
theorem yields_of_within {R : E → Prop}
    (hR : ∀ e, R e → V.Answers p e (fun _ ↦ True) fun _ _ ↦ True) {m : Prog E A η β}
    (hm : m.Within R) : V.Yields p m fun _ ↦ True := by
  induction m with
  | ret b => exact yields_ret trivial
  | raise e => exact yields_raise
  | call e k ih =>
    obtain ⟨he, hk⟩ := hm
    exact meets_call (fun _ _ ↦ True) stable_true (hR e he) fun a ↦ ih a (hk a)

theorem yields_ofExcept {r : Except η β} (h : ∀ b, r = .ok b → F b) :
    V.Yields p (Prog.ofExcept r : Prog E A η β) F := by
  cases r with
  | ok b => exact yields_ret (h b rfl)
  | error e => exact yields_raise

end Yields

/-! ## Soundness -/

/-- Every method meets its specification from any state in which it may start. -/
structure Verified (V : Setting σ E A ε α Call χ) (init : σ) (post : Call → α → σ → Prop)
    (fail : Call → ε → σ → Prop) : Prop where
  init : V.inv init
  body : ∀ p : ℕ × Call, V.Meets p (V.discipline.starts p.1 p.2) (V.service.body p.2) (post p.2)
    (fail p.2)
  post_stable : ∀ (p : ℕ × Call) a, V.Stable p (post p.2 a)
  fail_stable : ∀ (p : ℕ × Call) e, V.Stable p (fail p.2 e)

variable {init : σ} {post : Call → α → σ → Prop} {fail : Call → ε → σ → Prop}

/-- The invariant holds and every call, waiting or ended, is safe. -/
structure Sound (V : Setting σ E A ε α Call χ) (post : Call → α → σ → Prop)
    (fail : Call → ε → σ → Prop) (c : Config σ E A ε α Call) : Prop where
  inv : V.inv c.state
  safe : ∀ pid call m, c.procs pid = some (call, m) →
    V.Safe (pid, call) (post call) (fail call) m c.state

/-- A step of another call keeps a call safe. -/
theorem Safe.interfere {m : Prog E A η β} {q : ℕ × Call} {e : E} {s t : σ}
    (hQ : ∀ b, V.Stable p (Q b)) (hT : ∀ e, V.Stable p (T e)) (hq : q.1 ≠ p.1) (hs : V.inv s)
    (ht : V.inv t) (hg : V.guar q e s t) (h : V.Safe p Q T m s) : V.Safe p Q T m t := by
  cases m with
  | ret b => exact hQ b hq hs ht hg h
  | raise e => exact hT e hq hs ht hg h
  | call e k =>
    obtain ⟨P, hP, hp, hk⟩ := h
    exact ⟨P, hP, hP hq hs ht hg hp, hk⟩

/-- **The step lemma.** A permitted answer keeps a configuration sound and stays inside the
guarantee of the call it answers. -/
theorem Verified.resume (hV : V.Verified init post fail) {c c' : Config σ E A ε α Call}
    {pid : ℕ} {x : χ} {call : Call} {e : E} {k : A e → Prog E A ε α} (hc : V.Sound post fail c)
    (hproc : c.procs pid = some (call, .call e k)) (hp : Permits V.discipline c (.resume pid x))
    (h : V.service.step c (.resume pid x) = some c') :
    V.Sound post fail c' ∧ V.guar (pid, call) e c.state c'.state := by
  obtain ⟨call', e', k', a, hproc', ha, hprocs⟩ := step_resume_eq_some h
  rw [hproc] at hproc'
  cases hproc'
  have hx : V.discipline.answers pid e x c.state := by
    simpa only [Permits, hproc] using hp
  obtain ⟨P, -, hP, hk⟩ := hc.safe pid call _ hproc
  obtain ⟨hinv, hg, hm⟩ := hk hc.inv hP hx ha
  refine ⟨⟨hinv, fun q call' m' hm' ↦ ?_⟩, hg⟩
  rw [hprocs, Function.update_apply] at hm'
  split at hm'
  · next hq =>
    cases hm'
    exact hq ▸ hm
  · next hq =>
    exact (hc.safe q call' m' hm').interfere (hV.post_stable (q, call'))
      (hV.fail_stable (q, call')) (Ne.symm hq) hc.inv hinv hg

theorem Verified.step (hV : V.Verified init post fail) {c c' : Config σ E A ε α Call}
    {ev : Event Call χ} (hc : V.Sound post fail c) (hp : Permits V.discipline c ev)
    (h : V.service.step c ev = some c') :
    V.Sound post fail c' ∧ (c'.state = c.state ∨ ∃ p e, V.guar p e c.state c'.state) := by
  cases ev with
  | start pid call =>
    obtain ⟨-, hstate, hprocs⟩ := step_start_eq_some h
    refine ⟨⟨hstate ▸ hc.inv, fun q call' m hm ↦ ?_⟩, .inl hstate⟩
    rw [hprocs, Function.update_apply] at hm
    rw [hstate]
    split at hm
    · next hq =>
      cases hm
      exact hq ▸ hV.body (pid, call) _ hc.inv hp
    · exact hc.safe q call' m hm
  | resume pid x =>
    obtain ⟨call, e, k, a, hproc, -, -⟩ := step_resume_eq_some h
    obtain ⟨hc', hg⟩ := hV.resume hc hproc hp h
    exact ⟨hc', .inr ⟨(pid, call), e, hg⟩⟩

theorem Verified.leads (hV : V.Verified init post fail) {c c' : Config σ E A ε α Call}
    (hc : V.Sound post fail c) (h : Leads V.service V.discipline c c') :
    V.Sound post fail c' := by
  induction h with
  | refl => exact hc
  | step _ hp hs ih => exact (hV.step ih hp hs).1

/-- **The run lemma.** Every reachable configuration is sound. -/
theorem Verified.reachable (hV : V.Verified init post fail) {c : Config σ E A ε α Call}
    (h : Reachable V.service V.discipline init c) : V.Sound post fail c :=
  hV.leads ⟨hV.init, fun _ _ _ hm ↦ by cases hm⟩ h

/-- A preorder that contains every permitted step relates the beginning and the end of a run. -/
theorem Verified.future (hV : V.Verified init post fail) (R : σ → σ → Prop)
    (hrefl : ∀ s, R s s) (htrans : ∀ {s t u}, R s t → R t u → R s u)
    (hR : ∀ {p e x a s t}, V.inv s → V.inv t → V.discipline.answers p.1 e x s →
      V.service.handle p.1 e x s = some (a, t) → V.guar p e s t → R s t)
    {c c' : Config σ E A ε α Call} (hc : V.Sound post fail c)
    (h : Leads V.service V.discipline c c') : R c.state c'.state := by
  induction h with
  | refl => exact hrefl _
  | @step c₁ c₂ ev hl hp hs ih =>
    have hl := hV.leads hc hl
    cases ev with
    | start pid call =>
      obtain ⟨-, hstate, -⟩ := step_start_eq_some hs
      rw [hstate]
      exact ih
    | resume pid x =>
      obtain ⟨call, e, k, a, hproc, ha, -⟩ := step_resume_eq_some hs
      have hx : V.discipline.answers pid e x c₁.state := by
        simpa only [Permits, hproc] using hp
      obtain ⟨hc', hg⟩ := hV.resume hl hproc hp hs
      exact htrans ih (hR (p := (pid, call)) hl.inv hc'.inv hx ha hg)

/-- One call may be followed through a run under a sharper specification than its method has in
general, because of what held when it began. -/
theorem Verified.follow (hV : V.Verified init post fail) {c c' : Config σ E A ε α Call}
    {pid : ℕ} {call : Call} {m : Prog E A ε α} {Q : α → σ → Prop} {T : ε → σ → Prop}
    (hQ : ∀ b, V.Stable (pid, call) (Q b)) (hT : ∀ e, V.Stable (pid, call) (T e))
    (hc : V.Sound post fail c) (hproc : c.procs pid = some (call, m))
    (hm : V.Safe (pid, call) Q T m c.state) (h : Leads V.service V.discipline c c') :
    ∃ m', c'.procs pid = some (call, m') ∧ V.Safe (pid, call) Q T m' c'.state := by
  induction h with
  | refl => exact ⟨m, hproc, hm⟩
  | @step c₁ c₂ ev hl hp hs ih =>
    obtain ⟨m', hproc', hm'⟩ := ih
    have hl := hV.leads hc hl
    cases ev with
    | start q call' =>
      obtain ⟨hnone, hstate, hprocs⟩ := step_start_eq_some hs
      have hq : pid ≠ q := by
        rintro rfl
        rw [hproc'] at hnone
        cases hnone
      exact ⟨m', by rw [hprocs, Function.update_of_ne hq, hproc'], hstate ▸ hm'⟩
    | resume q x =>
      obtain ⟨call', e, k, a, hq, ha, hprocs⟩ := step_resume_eq_some hs
      by_cases hpid : pid = q
      · subst hpid
        rw [hproc'] at hq
        cases hq
        have hx : V.discipline.answers pid e x c₁.state := by
          simpa only [Permits, hproc'] using hp
        obtain ⟨P, -, hP, hk⟩ := hm'
        exact ⟨k a, by rw [hprocs, Function.update_self], (hk hl.inv hP hx ha).2.2⟩
      · obtain ⟨hc₂, hg⟩ := hV.resume hl hq hp hs
        exact ⟨m', by rw [hprocs, Function.update_of_ne hpid, hproc'],
          hm'.interfere hQ hT (Ne.symm hpid) hl.inv hc₂.inv hg⟩

/-! ## Progress

Safety says nothing of a call that waits for ever. A program `Returns` if each of its requests is
issued under a stable assertion under which it can be answered, and if it raises nothing.
-/

section Progress

/-- What is left of a program returns when it has been answered `n` times, or before. -/
def Returns (V : Setting σ E A ε α Call χ) (p : ℕ × Call) : ℕ → Prog E A η β → σ → Prop
  | _, .ret _, _ => True
  | n + 1, .call e k, s => ∃ P, V.Stable p P ∧ P s ∧
      (∀ t, V.inv t → P t → ∃ x a u, V.discipline.answers p.1 e x t ∧
        V.service.handle p.1 e x t = some (a, u)) ∧
      V.Answers p e P fun a ↦ Returns V p n (k a)
  | _, _, _ => False

theorem Returns.mono {n n' : ℕ} (h : n ≤ n') {m : Prog E A η β} {s : σ} (hm : V.Returns p n m s) :
    V.Returns p n' m s := by
  induction n generalizing n' m s with
  | zero =>
    cases m with
    | ret b => cases n' <;> trivial
    | raise e => exact hm.elim
    | call e k => exact hm.elim
  | succ n ih =>
    obtain ⟨n', rfl⟩ := Nat.exists_eq_succ_of_ne_zero
      (Nat.ne_of_gt (Nat.lt_of_lt_of_le n.succ_pos h))
    cases m with
    | ret b => trivial
    | raise e => exact hm.elim
    | call e k =>
      obtain ⟨P, hP, hp, henabled, hk⟩ := hm
      refine ⟨P, hP, hp, henabled, fun s x a t hs hps hx ha ↦ ?_⟩
      obtain ⟨hinv, hg, hrest⟩ := hk hs hps hx ha
      exact ⟨hinv, hg, ih (Nat.le_of_succ_le_succ h) hrest⟩

/-- A step of another call is not in the way. -/
theorem Returns.interfere {n : ℕ} {m : Prog E A η β} {q : ℕ × Call} {e : E} {s t : σ}
    (hq : q.1 ≠ p.1) (hs : V.inv s) (ht : V.inv t) (hg : V.guar q e s t)
    (h : V.Returns p n m s) : V.Returns p n m t := by
  cases m with
  | ret b => cases n <;> trivial
  | raise e => cases n <;> exact h.elim
  | call e k =>
    cases n with
    | zero => exact h.elim
    | succ n =>
      obtain ⟨P, hP, hp, hrest⟩ := h
      exact ⟨P, hP, hP hq hs ht hg hp, hrest⟩

theorem Returns.ne_raise {n : ℕ} {m : Prog E A η β} {s : σ} (h : V.Returns p n m s) (error : η) :
    m ≠ .raise error := by
  rintro rfl
  cases n <;> exact h

variable {pid : ℕ} {call : Call} {m : Prog E A ε α} {n : ℕ}

/-- A step of a run leaves a call that returns with no more requests than it had. -/
theorem Verified.returns_step (hV : V.Verified init post fail) {c c' : Config σ E A ε α Call}
    {ev : Event Call χ} (hc : V.Sound post fail c) (hproc : c.procs pid = some (call, m))
    (hm : V.Returns (pid, call) n m c.state) (hp : Permits V.discipline c ev)
    (h : V.service.step c ev = some c') :
    ∃ m', c'.procs pid = some (call, m') ∧ V.Returns (pid, call) n m' c'.state ∧
      (ev.pid ≠ pid → m' = m) := by
  cases ev with
  | start q call' =>
    obtain ⟨hnone, hstate, hprocs⟩ := step_start_eq_some h
    have hq : pid ≠ q := by
      rintro rfl
      rw [hproc] at hnone
      cases hnone
    exact ⟨m, by rw [hprocs, Function.update_of_ne hq, hproc], hstate ▸ hm, fun _ ↦ rfl⟩
  | resume q x =>
    obtain ⟨call', e, k, a, hq, ha, hprocs⟩ := step_resume_eq_some h
    obtain ⟨hc', hg⟩ := hV.resume hc hq hp h
    by_cases hpid : pid = q
    · subst hpid
      rw [hproc] at hq
      cases hq
      have hx : V.discipline.answers pid e x c.state := by
        simpa only [Permits, hproc] using hp
      refine ⟨k a, by rw [hprocs, Function.update_self], ?_, fun hne ↦ absurd rfl hne⟩
      cases n with
      | zero => exact hm.elim
      | succ n =>
        obtain ⟨P, -, hP, -, hk⟩ := hm
        exact (hk hc.inv hP hx ha).2.2.mono n.le_succ
    · exact ⟨m, by rw [hprocs, Function.update_of_ne hpid, hproc],
        hm.interfere (Ne.symm hpid) hc.inv hc'.inv hg, fun _ ↦ rfl⟩

theorem Verified.returns_leads (hV : V.Verified init post fail) {c c' : Config σ E A ε α Call}
    (hc : V.Sound post fail c) (hproc : c.procs pid = some (call, m))
    (hm : V.Returns (pid, call) n m c.state) (h : Leads V.service V.discipline c c') :
    ∃ m', c'.procs pid = some (call, m') ∧ V.Returns (pid, call) n m' c'.state := by
  induction h with
  | refl => exact ⟨m, hproc, hm⟩
  | step hl hp hs ih =>
    obtain ⟨m', hproc', hm'⟩ := ih
    obtain ⟨m'', hproc'', hm'', -⟩ := hV.returns_step (hV.leads hc hl) hproc' hm' hp hs
    exact ⟨m'', hproc'', hm''⟩

theorem Verified.returns_elsewhere (hV : V.Verified init post fail)
    {c c' : Config σ E A ε α Call} (hc : V.Sound post fail c)
    (hproc : c.procs pid = some (call, m)) (hm : V.Returns (pid, call) n m c.state)
    (h : Elsewhere V.service V.discipline pid c c') :
    V.Sound post fail c' ∧ c'.procs pid = some (call, m) ∧ V.Returns (pid, call) n m c'.state := by
  induction h with
  | refl => exact ⟨hc, hproc, hm⟩
  | step _ hne hp hs ih =>
    obtain ⟨hc', hproc', hm'⟩ := ih
    obtain ⟨m', hproc'', hm'', hsame⟩ := hV.returns_step hc' hproc' hm' hp hs
    obtain rfl := hsame hne
    exact ⟨(hV.step hc' hp hs).1, hproc'', hm''⟩

/-- **The progress lemma.** A call whose program returns does so, whatever the others do. -/
theorem Verified.returnsWithin (hV : V.Verified init post fail) {c : Config σ E A ε α Call}
    (hc : V.Sound post fail c) (hproc : c.procs pid = some (call, m))
    (hm : V.Returns (pid, call) n m c.state) :
    ReturnsWithin V.service V.discipline pid n c := by
  induction n generalizing c m with
  | zero =>
    cases m with
    | ret a => exact ⟨call, a, hproc⟩
    | raise e => exact hm.elim
    | call e k => exact hm.elim
  | succ n ih =>
    cases m with
    | ret a => exact .inl ⟨call, a, hproc⟩
    | raise e => exact hm.elim
    | call e k =>
      refine .inr fun c₁ helsewhere ↦ ?_
      obtain ⟨hc₁, hproc₁, P, -, hP, henabled, hk⟩ := hV.returns_elsewhere hc hproc hm helsewhere
      refine ⟨?_, fun x c₂ hp hs ↦ ?_⟩
      · obtain ⟨x, a, t, hx, ha⟩ := henabled c₁.state hc₁.inv hP
        exact ⟨x, ⟨t, Function.update c₁.procs pid (some (call, k a))⟩,
          by simpa only [Permits, hproc₁] using hx, by simp [Service.step, hproc₁, ha]⟩
      · obtain ⟨call', e', k', a, hproc', ha, hprocs⟩ := step_resume_eq_some hs
        rw [hproc₁] at hproc'
        cases hproc'
        have hx : V.discipline.answers pid e x c₁.state := by
          simpa only [Permits, hproc₁] using hp
        refine ih (hV.resume hc₁ hproc₁ hp hs).1 ?_ (hk hc₁.inv hP hx ha).2.2
        rw [hprocs, Function.update_self]

end Progress

end Setting

end Concurrent
