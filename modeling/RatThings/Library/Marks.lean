import RatThings.Library.RelyGuarantee

/-!
# Marked programs

Some properties of a method are about its parts: when one part begins and when another has ended.
A request says what the environment is asked, but not on behalf of which part. A *marked* program
is a program with marks set between its requests; a service that runs marked programs keeps the
marks of all calls, in the order in which they were reached.

`Prog.unmarked` takes the marks out again. A method is marked faithfully when taking the marks out
of the marked program gives the method back.

## Provenance

`Prog.WithinKnown` is `Prog.Within` with memory: what a program may request depends on what it has
learned from the answers before. A program that only overwrites what it has read is one example.
-/

namespace Concurrent

variable {E : Type} {A : E → Type} {ε ε' α β M σ Call χ : Type}

/-! ## Programs -/

inductive Marked (E M : Type) : Type
  | request (e : E)
  | mark (m : M)

abbrev Marked.Answer (A : E → Type) : Marked E M → Type
  | .request e => A e
  | .mark _ => Unit

namespace Prog

/-- The program without marks, as a marked program. -/
def lift : Prog E A ε α → Prog (Marked E M) (Marked.Answer A) ε α
  | ret a => ret a
  | raise e => raise e
  | call e k => call (.request e) fun a ↦ (k a).lift

def mark (m : M) : Prog (Marked E M) (Marked.Answer A) ε Unit :=
  perform (Marked.mark m)

/-- The program with its marks taken out. -/
def unmarked : Prog (Marked E M) (Marked.Answer A) ε α → Prog E A ε α
  | ret a => ret a
  | raise e => raise e
  | call (.request e) k => call e fun a ↦ (k a).unmarked
  | call (.mark _) k => (k ()).unmarked

@[simp] theorem unmarked_ret (a : α) :
    (ret a : Prog (Marked E M) (Marked.Answer A) ε α).unmarked = ret a := rfl

@[simp] theorem unmarked_raise (e : ε) :
    (raise e : Prog (Marked E M) (Marked.Answer A) ε α).unmarked = raise e := rfl

@[simp] theorem unmarked_lift (m : Prog E A ε α) :
    (m.lift : Prog (Marked E M) (Marked.Answer A) ε α).unmarked = m := by
  induction m with
  | ret a => rfl
  | raise e => rfl
  | call e k ih => exact congrArg (call e) (funext ih)

@[simp] theorem unmarked_mark (m : M) :
    (mark m : Prog (Marked E M) (Marked.Answer A) ε Unit).unmarked = ret () := rfl

@[simp] theorem unmarked_bind (m : Prog (Marked E M) (Marked.Answer A) ε α)
    (f : α → Prog (Marked E M) (Marked.Answer A) ε β) :
    (m >>= f).unmarked = m.unmarked >>= fun a ↦ (f a).unmarked := by
  induction m with
  | ret a => rfl
  | raise e => rfl
  | call e k ih =>
    cases e with
    | request e => exact congrArg (call e) (funext ih)
    | mark m => exact ih ()

@[simp] theorem unmarked_catching (m : Prog (Marked E M) (Marked.Answer A) ε α)
    (f : ε → Prog (Marked E M) (Marked.Answer A) ε' α) :
    (m.catching f).unmarked = m.unmarked.catching fun e ↦ (f e).unmarked := by
  induction m with
  | ret a => rfl
  | raise e => rfl
  | call e k ih =>
    cases e with
    | request e => exact congrArg (call e) (funext ih)
    | mark m => exact ih ()

/-! ## What a program has learned -/

section Known

variable {K : Type} (learn : (e : E) → A e → List K) (R : List K → E → Prop)

/-- Every request is allowed by what the answers so far have taught, and what is returned
satisfies `Q`. -/
def WithinKnown (Q : α → Prop) : List K → Prog E A ε α → Prop
  | _, ret a => Q a
  | _, raise _ => True
  | known, call e k => R known e ∧ ∀ a, WithinKnown Q (learn e a ++ known) (k a)

variable {learn R} {known known' : List K} {Q : α → Prop} {Q' : β → Prop}

/-- To have learned more allows no less. -/
def Accumulates (R : List K → E → Prop) : Prop :=
  ∀ ⦃known known' e⦄, known ⊆ known' → R known e → R known' e

theorem WithinKnown.mono (hR : Accumulates R) {m : Prog E A ε α}
    (hm : m.WithinKnown learn R Q known) (h : known ⊆ known') :
    m.WithinKnown learn R Q known' := by
  induction m generalizing known known' with
  | ret a => exact hm
  | raise e => trivial
  | call e k ih =>
    refine ⟨hR h hm.1, fun a ↦ ih a (hm.2 a) fun v hv ↦ ?_⟩
    rw [List.mem_append] at hv ⊢
    exact hv.imp_right fun hv ↦ h hv

theorem WithinKnown.bind (hR : Accumulates R) {m : Prog E A ε α} {f : α → Prog E A ε β}
    (hm : m.WithinKnown learn R Q known)
    (hf : ∀ a, Q a → (f a).WithinKnown learn R Q' known) :
    (m >>= f).WithinKnown learn R Q' known := by
  induction m generalizing known with
  | ret a => exact hf a hm
  | raise e => trivial
  | call e k ih =>
    refine ⟨hm.1, fun a ↦ ih a (hm.2 a) fun b hb ↦ (hf b hb).mono hR ?_⟩
    exact List.subset_append_right _ _

theorem WithinKnown.catching (hR : Accumulates R) {m : Prog E A ε α} {f : ε → Prog E A ε' α}
    (hm : m.WithinKnown learn R Q known) (hf : ∀ e, (f e).WithinKnown learn R Q known) :
    (m.catching f).WithinKnown learn R Q known := by
  induction m generalizing known with
  | ret a => exact hm
  | raise e => exact hf e
  | call e k ih =>
    refine ⟨hm.1, fun a ↦ ih a (hm.2 a) fun b ↦ (hf b).mono hR ?_⟩
    exact List.subset_append_right _ _

/-- Requests that are always allowed. -/
theorem Within.withinKnown {R' : E → Prop} (hR : ∀ known e, R' e → R known e) {m : Prog E A ε α}
    (hm : m.Within R') : m.WithinKnown learn R (fun _ ↦ True) known := by
  induction m generalizing known with
  | ret a => trivial
  | raise e => trivial
  | call e k ih => exact ⟨hR _ e hm.1, fun a ↦ ih a (hm.2 a)⟩

end Known

end Prog

/-! ## Services -/

/-- A state with the marks reached so far. -/
structure Traced (σ M : Type) where
  state : σ
  trace : List M

/-- The service whose methods are marked. -/
def Service.traced (S : Service σ E A ε α Call χ)
    (body : Call → Prog (Marked E M) (Marked.Answer A) ε α) :
    Service (Traced σ M) (Marked E M) (Marked.Answer A) ε α Call χ where
  body := body
  handle pid
    | .request e, x, s => (S.handle pid e x s.state).map fun r ↦ (r.1, ⟨r.2, s.trace⟩)
    | .mark m, _, s => some ((), ⟨s.state, s.trace ++ [m]⟩)

namespace Setting

variable (V : Setting σ E A ε α Call χ) (body : Call → Prog (Marked E M) (Marked.Answer A) ε α)
  (inv : Traced σ M → Prop)

/-- The restrictions of the environment, in the marked service. -/
def traces (D : Discipline σ E Call χ) : Discipline (Traced σ M) (Marked E M) Call χ where
  starts pid call s := D.starts pid call s.state
  answers pid
    | .request e, x, s => D.answers pid e x s.state
    | .mark _, _, _ => True

instance (D : Discipline σ E Call χ) [hD : D.Checked] :
    (traces D : Discipline (Traced σ M) (Marked E M) Call χ).Checked where
  starts pid call s := hD.starts pid call s.state
  answers pid
    | .request e, x, s => hD.answers pid e x s.state
    | .mark _, _, _ => .isTrue trivial

/-- The proof setting of the marked service: the trace may take part in the invariant. -/
def traced : Setting (Traced σ M) (Marked E M) (Marked.Answer A) ε α Call χ where
  service := V.service.traced body
  discipline := traces V.discipline
  inv s := V.inv s.state ∧ inv s
  guar p
    | .request e, s, t => V.guar p e s.state t.state ∧ t.trace = s.trace
    | .mark m, s, t => t = ⟨s.state, s.trace ++ [m]⟩

variable {V body inv} {p : ℕ × Call} {P : σ → Prop} {Q : β → σ → Prop} {η : Type}
  {T : η → σ → Prop}

/-- A mark does not touch the state, so what was stable is stable still. -/
theorem Stable.traced (h : V.Stable p P) :
    (V.traced body inv).Stable p fun s ↦ P s.state := by
  intro q e s t hq hs ht hg hP
  cases e with
  | request e => exact h hq hs.1 ht.1 hg.1 hP
  | mark m =>
    obtain rfl := hg
    exact hP

theorem Permanent.traced (h : V.Permanent P) :
    (V.traced body inv).Permanent fun s ↦ P s.state := by
  intro q e s t hs ht hg hP
  cases e with
  | request e => exact h hs.1 ht.1 hg.1 hP
  | mark m =>
    obtain rfl := hg
    exact hP

/-- A mark once reached stays in the trace. -/
theorem trace_permanent (m : M) : (V.traced body inv).Permanent fun s ↦ m ∈ s.trace := by
  intro q e s t _ _ hg hm
  cases e with
  | request e => exact hg.2 ▸ hm
  | mark m' =>
    obtain rfl := hg
    exact List.mem_append_left _ hm

/-- **A method of the service as a part of a marked one.** The invariant of the trace has to be
kept by the requests the method may make, given what it has learned and an assertion `F` under
which it runs. -/
theorem Safe.lift {K : Type} {learn : (e : E) → A e → List K} {R : List K → E → Prop}
    {F : Traced σ M → Prop} (holds : K → σ → Prop) (hF : (V.traced body inv).Permanent F)
    (hholds : ∀ v, V.Permanent (holds v))
    (hlearn : ∀ ⦃e s x a t⦄, V.inv s → V.service.handle p.1 e x s = some (a, t) →
      ∀ v ∈ learn e a, holds v t)
    (hkeep : ∀ ⦃e known x a⦄ ⦃s : Traced σ M⦄ ⦃t⦄, R known e → (∀ v ∈ known, holds v s.state) →
      V.inv s.state → inv s → F s → V.service.handle p.1 e x s.state = some (a, t) → V.inv t →
      V.guar p e s.state t → inv ⟨t, s.trace⟩)
    {m : Prog E A η β} {known : List K} {Q' : β → Prop} (hm : m.WithinKnown learn R Q' known)
    {s : Traced σ M}
    (hknown : ∀ v ∈ known, holds v s.state) (hf : F s) (h : V.Safe p Q T m s.state) :
    (V.traced body inv).Safe p (fun b s ↦ F s ∧ Q b s.state) (fun e s ↦ F s ∧ T e s.state)
      m.lift s := by
  induction m generalizing s known with
  | ret b => exact ⟨hf, h⟩
  | raise e => exact ⟨hf, h⟩
  | call e k ih =>
    obtain ⟨P, hP, hp, hk⟩ := h
    have hall : (V.traced body inv).Permanent fun s ↦ ∀ v ∈ known, holds v s.state :=
      fun _ _ _ _ hs ht hg h v hv ↦ (hholds v).traced hs ht hg (h v hv)
    refine ⟨fun s ↦ P s.state ∧ F s ∧ ∀ v ∈ known, holds v s.state,
      hP.traced.and (hF.stable.and hall.stable), ⟨hp, hf, hknown⟩, ?_⟩
    intro s x a t hs ⟨hp, hf, hknown⟩ hx ha
    obtain ⟨⟨a', state⟩, ha', heq⟩ := Option.map_eq_some_iff.mp ha
    cases heq
    obtain ⟨ht, hg, hrest⟩ := hk hs.1 hp hx ha'
    have hinv : inv ⟨state, s.trace⟩ := hkeep hm.1 hknown hs.1 hs.2 hf ha' ht hg
    have hF' : F ⟨state, s.trace⟩ :=
      hF (q := p) (e := .request e) hs ⟨ht, hinv⟩ ⟨hg, rfl⟩ hf
    refine ⟨⟨ht, hinv⟩, ⟨hg, rfl⟩, ih a' (hm.2 a') (fun v hv ↦ ?_) hF' hrest⟩
    rcases List.mem_append.mp hv with hv | hv
    · exact hlearn hs.1 ha' v hv
    · exact hholds v (q := p) (e := e) hs.1 ht hg (hknown v hv)

/-- Reaching a mark. -/
theorem meets_mark {m : M} {P' Q' : Traced σ M → Prop} {T' : η → Traced σ M → Prop}
    (hP : (V.traced body inv).Stable p P')
    (h : ∀ s, V.inv s.state → inv s → P' s →
      inv ⟨s.state, s.trace ++ [m]⟩ ∧ Q' ⟨s.state, s.trace ++ [m]⟩) :
    (V.traced body inv).Meets p P'
      (Prog.mark m : Prog (Marked E M) (Marked.Answer A) η Unit) (fun _ ↦ Q') T' := by
  refine meets_perform hP fun s x a t hs hp _ ha ↦ ?_
  cases ha
  obtain ⟨hinv, hq⟩ := h s hs.1 hs.2 hp
  exact ⟨⟨hs.1, hinv⟩, rfl, hq⟩

end Setting

end Concurrent
