import RatThings.Library.Marks
import RatThings.Sessions.Admission

/-!
# Commands reach the execution in order

A receipt is dispatched by whoever gets to it, and often by several at once: each dispatcher goes
through the receipts of a document that may be long out of date, and each attempts every command it
does not know to be dispatched. What keeps the commands in order is that no dispatcher goes on to a
command before it has seen the end of its own attempt at the command before.

## Marks

The dispatcher is marked where an attempt begins, where the command has been delivered, and where a
final refusal has been taken down. An attempt that fails in another way has no end, and the
dispatcher that made it stops.

## Where a refusal is recorded

A dispatcher carries the failure of its last refused command along, and files it with the receipt
when it marks the receipt as dispatched. So the commands of earlier requests have their failures on
record when an attempt begins. Those of the same request do not yet: if the dispatcher stops before
it marks the receipt, the failure is forgotten, and the next dispatcher attempts the command again.

**The invariant.** A receipt that is marked without a failure has had all of its commands delivered,
and one that is marked with a failure has had the command of that failure refused. It holds for a
dispatcher that marks a receipt another has marked before, and replaces its failure.
-/

namespace RatThings

open Concurrent Service Setting

/-! ## Accepted commands -/

/-- A command at the place where it was accepted. -/
structure AcceptedCommand where
  key : String
  index : ℕ
  command : SessionCommand
deriving DecidableEq, Repr

/-- The commands of a receipt, from this index on. -/
def receiptCommands (key : String) : ℕ → List SessionCommand → List AcceptedCommand
  | _, [] => []
  | index, command :: commands =>
    ⟨key, index, command⟩ :: receiptCommands key (index + 1) commands

/-- The commands of these receipts, in order. -/
def acceptedCommands (receipts : List (String × Receipt)) : List AcceptedCommand :=
  receipts.flatMap fun entry ↦ receiptCommands entry.1 0 entry.2.commands

/-- The commands of a document, in the order in which they were accepted. -/
def SessionState.accepted (state : SessionState) : List AcceptedCommand :=
  acceptedCommands state.receipts.entries

theorem mem_receiptCommands {key : String} {index : ℕ} {commands : List SessionCommand}
    {c : AcceptedCommand} (h : c ∈ receiptCommands key index commands) :
    c.key = key ∧ index ≤ c.index := by
  induction commands generalizing index with
  | nil => cases h
  | cons command commands ih =>
    rcases List.mem_cons.mp h with rfl | h
    · exact ⟨rfl, Nat.le_refl index⟩
    · obtain ⟨hkey, hindex⟩ := ih h
      exact ⟨hkey, by omega⟩

theorem nodup_receiptCommands (key : String) (index : ℕ) (commands : List SessionCommand) :
    (receiptCommands key index commands).Nodup := by
  induction commands generalizing index with
  | nil => exact List.nodup_nil
  | cons command commands ih =>
    refine List.nodup_cons.mpr ⟨fun hmem ↦ ?_, ih (index + 1)⟩
    have hindex : index + 1 ≤ index := (mem_receiptCommands hmem).2
    omega

/-- No command is accepted in two places. -/
theorem SessionState.accepted_nodup (state : SessionState) : state.accepted.Nodup := by
  rw [accepted, acceptedCommands, List.nodup_flatMap]
  refine ⟨fun e _ ↦ nodup_receiptCommands _ _ _, ?_⟩
  have hkeys : state.receipts.entries.Pairwise fun e e' ↦ e.1 ≠ e'.1 :=
    List.pairwise_map.mp state.receipts.nodup
  refine hkeys.imp fun {e e'} hne c hc hc' ↦ hne ?_
  rw [← (mem_receiptCommands hc).1, ← (mem_receiptCommands hc').1]

/-! ## The marked dispatcher -/

/-- Where an attempt at a command begins, and where it has ended. -/
inductive AttemptMark : Type
  | began (c : AcceptedCommand)
  | succeeded (c : AcceptedCommand)
  | refused (c : AcceptedCommand) (failure : ReceiptFailure)
deriving DecidableEq, Repr

abbrev AttemptProg := Prog (Marked SessionEffect AttemptMark) (Marked.Answer SessionEffect.Answer)
  ServiceFailure

abbrev AttemptWorld := Traced SessionWorld AttemptMark

namespace SessionOptions

variable (options : SessionOptions)

def attemptCommand (key : String) (index : ℕ) (resource : Versioned SessionState)
    (failure : Option ReceiptFailure) (command : SessionCommand) :
    AttemptProg (Versioned SessionState × Option ReceiptFailure) := do
  Prog.mark (.began ⟨key, index, command⟩)
  tryCatch
    (do
      let resource ← (options.deliverCommand resource command).lift
      Prog.mark (.succeeded ⟨key, index, command⟩)
      pure (resource, failure))
    fun error ↦ do
      let (resource, failure) ← (recordRefusal key resource command error).lift
      Prog.mark (.refused ⟨key, index, command⟩ failure)
      pure (resource, some failure)

def attemptCommands (key : String) : ℕ → List SessionCommand → Versioned SessionState →
    Option ReceiptFailure → AttemptProg (Versioned SessionState × Option ReceiptFailure)
  | _, [], resource, failure => pure (resource, failure)
  | index, command :: commands, resource, failure => do
    let (resource, failure) ← options.attemptCommand key index resource failure command
    attemptCommands key (index + 1) commands resource failure

def attemptReceipts : List (String × Receipt) → Versioned SessionState → AttemptProg Unit
  | [], _ => pure ()
  | (key, receipt) :: receipts, resource =>
    if receipt.dispatched then attemptReceipts receipts resource
    else do
      let (_, failure) ← options.attemptCommands key 0 receipt.commands resource none
      match ← (Prog.perform SessionEffect.get : SessionProg _).lift with
      | none => (cancelStarts receipt.commands).lift
      | some current =>
        if current.value.closing then pure ()
        else do
          let acknowledged : Receipt :=
            { receipt with dispatched := true, failure := failure <|> receipt.failure }
          let resource ← (replaceSession current
            { current.value with receipts := current.value.receipts.set key acknowledged }
            (.acknowledge key)).lift
          attemptReceipts receipts resource

def attemptDispatch : AttemptProg Unit := do
  match ← (Prog.perform SessionEffect.get : SessionProg _).lift with
  | none => pure ()
  | some resource =>
    let now ← (Prog.perform SessionEffect.now : SessionProg _).lift
    if resource.value.closing || resource.value.forkLock.any (now < ·) then pure ()
    else do
      (orElse (options.rejectsAgent resource.value resource.value.session.agent)).lift
      (do Prog.ofExcept (← Prog.perform (SessionEffect.execute .initializeExecution)) :
        SessionProg Unit).lift
      options.attemptReceipts resource.value.receipts.entries resource

/-- The calls of a Session, with dispatch marked. -/
def attempting : Call → AttemptProg Unit
  | .dispatch => options.attemptDispatch
  | call => (options.body call).lift

/-! ### The marks change nothing -/

theorem unmarked_attemptCommand (key : String) (index : ℕ) (resource : Versioned SessionState)
    (failure : Option ReceiptFailure) (command : SessionCommand) :
    (options.attemptCommand key index resource failure command).unmarked =
      options.dispatchCommand key resource failure command := by
  have hdelivered : ((options.deliverCommand resource command).lift >>= fun resource ↦
      (Prog.mark (.succeeded ⟨key, index, command⟩) >>= fun _ ↦ pure (resource, failure) :
        AttemptProg _)).unmarked =
      options.deliverCommand resource command >>= fun resource ↦ pure (resource, failure) := by
    rw [Prog.unmarked_bind, Prog.unmarked_lift]
    rfl
  have hrefused (error : ServiceFailure) : ((recordRefusal key resource command error).lift >>=
      fun r ↦ (Prog.mark (.refused ⟨key, index, command⟩ r.2) >>= fun _ ↦ pure (r.1, some r.2) :
        AttemptProg _)).unmarked =
      recordRefusal key resource command error >>= fun r ↦ pure (r.1, some r.2) := by
    rw [Prog.unmarked_bind, Prog.unmarked_lift]
    rfl
  rw [attemptCommand, Prog.unmarked_bind, Prog.unmarked_mark, Prog.ret_bind]
  refine (Prog.unmarked_catching _ _).trans ?_
  exact congrArg₂ Prog.catching hdelivered (funext hrefused)

theorem unmarked_attemptCommands (key : String) (index : ℕ) (commands : List SessionCommand)
    (resource : Versioned SessionState) (failure : Option ReceiptFailure) :
    (options.attemptCommands key index commands resource failure).unmarked =
      options.dispatchCommands key commands resource failure := by
  induction commands generalizing index resource failure with
  | nil => rfl
  | cons command commands ih =>
    rw [attemptCommands, dispatchCommands, Prog.unmarked_bind, unmarked_attemptCommand]
    exact congrArg _ (funext fun r ↦ ih (index + 1) r.1 r.2)

theorem unmarked_attemptReceipts (receipts : List (String × Receipt))
    (resource : Versioned SessionState) :
    (options.attemptReceipts receipts resource).unmarked =
      options.dispatchReceipts receipts resource := by
  induction receipts generalizing resource with
  | nil => rfl
  | cons entry receipts ih =>
    obtain ⟨key, receipt⟩ := entry
    rw [attemptReceipts, dispatchReceipts]
    split
    · exact ih resource
    rw [Prog.unmarked_bind, unmarked_attemptCommands]
    refine congrArg _ (funext fun r ↦ ?_)
    rw [Prog.unmarked_bind, Prog.unmarked_lift]
    refine congrArg _ (funext fun current ↦ ?_)
    cases current with
    | none => exact Prog.unmarked_lift _
    | some current =>
      dsimp only
      split
      · rfl
      · rw [Prog.unmarked_bind, Prog.unmarked_lift]
        exact congrArg _ (funext ih)

/-- Without its marks, each call is the call of the service. -/
theorem unmarked_attempting (call : Call) :
    (options.attempting call).unmarked = options.body call := by
  cases call with
  | dispatch =>
    simp only [attempting, attemptDispatch, body, dispatch, Prog.unmarked_bind, Prog.unmarked_lift]
    refine congrArg _ (funext fun found ↦ ?_)
    cases found with
    | none => rfl
    | some resource =>
      simp only [Prog.unmarked_bind, Prog.unmarked_lift]
      refine congrArg _ (funext fun now ↦ ?_)
      split
      · rfl
      · simp only [Prog.unmarked_bind, Prog.unmarked_lift, unmarked_attemptReceipts,
          Prog.bind_assoc]
  | _ => exact Prog.unmarked_lift _

/-! ## The order of acceptance -/

variable {options} {D : Discipline SessionWorld SessionEffect Call SessionChoice} {p : ℕ × Call}

/-- The receipts are in the order in which their requests were admitted. -/
theorem Recorded.receiptKeys {state : SessionState} {log : List Admission}
    (h : options.Recorded state log) :
    state.receipts.entries.map Prod.fst = log.map (·.key) := by
  have := congrArg (List.map Prod.fst) h.receipts
  simpa [SessionState.filed, Function.comp_def] using this

/-- What was accepted is followed only by what is accepted later. -/
theorem accepted_grows {w w' : SessionWorld} {old new : Versioned SessionState}
    (hinv : options.Inv w) (hinv' : options.Inv w') (h : w.Since w') (hold : w.record = some old)
    (hnew : w'.record = some new) : old.value.accepted <+: new.value.accepted := by
  obtain ⟨hrec, -⟩ := hinv.read hold
  obtain ⟨hrec', -⟩ := hinv'.read hnew
  obtain ⟨new', hnew', hext⟩ := h.document old hold
  rw [hnew] at hnew'
  cases hnew'
  -- The commands of a receipt depend on its key only, and the keys extend each other.
  have hcommands (state : SessionState) : state.accepted =
      (state.receipts.entries.map Prod.fst).flatMap fun key ↦
        receiptCommands key 0 ((state.receipts.get? key).elim [] (·.commands)) := by
    rw [SessionState.accepted, acceptedCommands, List.flatMap_map]
    refine List.flatMap_congr fun e he ↦ ?_
    rw [OrderedMap.get?_eq_some.mpr he]
    rfl
  obtain ⟨rest, hrest⟩ := h.log
  have hkeys : new.value.receipts.entries.map Prod.fst =
      old.value.receipts.entries.map Prod.fst ++ rest.map (·.key) := by
    rw [hrec.receiptKeys, hrec'.receiptKeys, ← hrest, List.map_append]
  have hsame : (old.value.receipts.entries.map Prod.fst).flatMap (fun key ↦
        receiptCommands key 0 ((new.value.receipts.get? key).elim [] (·.commands))) =
      old.value.accepted := by
    rw [hcommands old.value]
    refine List.flatMap_congr fun key hkey ↦ ?_
    obtain ⟨⟨key, receipt⟩, he, rfl⟩ := List.mem_map.mp hkey
    have hget : old.value.receipts.get? key = some receipt := OrderedMap.get?_eq_some.mpr he
    obtain ⟨receipt', hget', hf⟩ := hext.receipts key receipt hget
    rw [hget, hget', Option.elim_some, Option.elim_some, hf.commands]
  rw [hcommands new.value, hkeys, List.flatMap_append, hsame]
  exact List.prefix_append _ _

/-- An attempt at the command has ended. -/
def Ended (c : AcceptedCommand) (trace : List AttemptMark) : Prop :=
  .succeeded c ∈ trace ∨ ∃ failure, .refused c failure ∈ trace

theorem Ended.mono {c : AcceptedCommand} {trace trace' : List AttemptMark} (h : Ended c trace)
    (hsub : trace ⊆ trace') : Ended c trace' :=
  h.imp (hsub ·) fun ⟨failure, hrefused⟩ ↦ ⟨failure, hsub hrefused⟩

/-- An attempt at each of these commands has ended. All have succeeded if no failure is known, and
a failure that is known is that of a command that was refused. -/
structure Settled (commands : List AcceptedCommand) (failure : Option ReceiptFailure)
    (trace : List AttemptMark) : Prop where
  ended : ∀ c ∈ commands, Ended c trace
  succeeded : failure = none → ∀ c ∈ commands, .succeeded c ∈ trace
  refused : ∀ f, failure = some f → ∃ c ∈ commands, .refused c f ∈ trace

section Settled

variable {commands : List AcceptedCommand} {failure : Option ReceiptFailure}
  {trace trace' : List AttemptMark}

theorem settled_nil : Settled [] none trace :=
  ⟨fun _ h ↦ (nomatch h), fun _ _ h ↦ (nomatch h), fun _ h ↦ nomatch h⟩

theorem Settled.mono (h : Settled commands failure trace) (hsub : trace ⊆ trace') :
    Settled commands failure trace' where
  ended c hc := (h.ended c hc).mono hsub
  succeeded hnone c hc := hsub (h.succeeded hnone c hc)
  refused f hf := (h.refused f hf).imp fun _ hc ↦ ⟨hc.1, hsub hc.2⟩

/-- One more command was delivered. -/
theorem Settled.succeed (h : Settled commands failure trace) (c : AcceptedCommand) :
    Settled (commands ++ [c]) failure (trace ++ [.succeeded c]) where
  ended c' hc' := by
    rcases List.mem_append.mp hc' with hold | hnew
    · exact (h.ended c' hold).mono (List.subset_append_left _ _)
    · rw [List.mem_singleton.mp hnew]
      exact .inl (List.mem_append_right _ List.mem_cons_self)
  succeeded hnone c' hc' := by
    rcases List.mem_append.mp hc' with hold | hnew
    · exact List.mem_append_left _ (h.succeeded hnone c' hold)
    · rw [List.mem_singleton.mp hnew]
      exact List.mem_append_right _ List.mem_cons_self
  refused f hf := by
    obtain ⟨c', hc', hrefused⟩ := h.refused f hf
    exact ⟨c', List.mem_append_left _ hc', List.mem_append_left _ hrefused⟩

/-- One more command was refused. Its failure takes the place of an earlier one. -/
theorem Settled.refuse (h : Settled commands failure trace) (c : AcceptedCommand)
    (f : ReceiptFailure) : Settled (commands ++ [c]) (some f) (trace ++ [.refused c f]) where
  ended c' hc' := by
    rcases List.mem_append.mp hc' with hold | hnew
    · exact (h.ended c' hold).mono (List.subset_append_left _ _)
    · rw [List.mem_singleton.mp hnew]
      exact .inr ⟨f, List.mem_append_right _ List.mem_cons_self⟩
  succeeded hnone := nomatch hnone
  refused f' hf := by
    obtain rfl := Option.some.inj hf
    exact ⟨c, List.mem_append_right _ List.mem_cons_self,
      List.mem_append_right _ List.mem_cons_self⟩

end Settled

/-- A receipt is marked when its commands are settled, with the failure they have come to. -/
def ReceiptSettled (key : String) (receipt : Receipt) (trace : List AttemptMark) : Prop :=
  if receipt.dispatched then Settled (receiptCommands key 0 receipt.commands) receipt.failure trace
  else receipt.failure = none

theorem ReceiptSettled.mono {key : String} {receipt : Receipt} {trace trace' : List AttemptMark}
    (h : ReceiptSettled key receipt trace) (hsub : trace ⊆ trace') :
    ReceiptSettled key receipt trace' := by
  unfold ReceiptSettled at h ⊢
  split
  · next hd =>
    rw [if_pos hd] at h
    exact h.mono hsub
  · next hd =>
    rw [if_neg hd] at h
    exact h

/-- The request with this key has been dispatched. -/
def Filed (key : String) (resource : Versioned SessionState) : Prop :=
  ∃ receipt, resource.value.receipts.get? key = some receipt ∧ receipt.dispatched

theorem Filed.extends {key : String} {old new : Versioned SessionState} (h : Filed key old)
    (hext : old.value.Extends new.value) : Filed key new := by
  obtain ⟨receipt, hr, hd⟩ := h
  obtain ⟨receipt', hr', hf⟩ := hext.receipts key receipt hr
  exact ⟨receipt', hr', hf.dispatched hd⟩

/-- The attempts so far are in the order of acceptance, and the receipts say what has come of
them. -/
structure InOrder (s : AttemptWorld) : Prop where
  /-- When an attempt began, attempts at all that was accepted before had ended, and the requests
  before were dispatched. -/
  attempts : ∀ resource, s.state.record = some resource → ∀ past c,
    past ++ [.began c] <+: s.trace → ∃ before, before ++ [c] <+: resource.value.accepted ∧
      ∀ c' ∈ before, Ended c' past ∧ (c'.key ≠ c.key → Filed c'.key resource)
  receipts : ∀ resource, s.state.record = some resource → ∀ key receipt,
    resource.value.receipts.get? key = some receipt → ReceiptSettled key receipt s.trace

variable (options D) in
/-- The proof setting of the marked calls. -/
abbrev attemptSetting : Setting AttemptWorld (Marked SessionEffect AttemptMark)
    (Marked.Answer SessionEffect.Answer) ServiceFailure Unit Call SessionChoice :=
  (options.setting D).traced options.attempting InOrder

/-! ## Requests that dispatch nothing -/

/-- The documents a request reads. -/
def documentsRead : (e : SessionEffect) → e.Answer → List (Versioned SessionState)
  | .get, found => Option.toList found
  | _, _ => []

/-- A replacement is of a document that was read, and its receipts are those of that document, or
settled by the marks that were reached. -/
def Marks (reached : List AttemptMark) (known : List (Versioned SessionState)) :
    SessionEffect → Prop
  | .replace resource value _ => resource ∈ known ∧ ∀ key receipt,
      value.receipts.get? key = some receipt →
        ReceiptSettled key receipt reached ∨ resource.value.receipts.get? key = some receipt
  | _ => True

theorem marks_accumulates (reached : List AttemptMark) : Prog.Accumulates (Marks reached) := by
  intro known known' e hsub h
  cases e with
  | replace resource value purpose => exact ⟨hsub h.1, h.2⟩
  | _ => trivial

/-- The document was read, or is older than one that was. -/
def Read (resource : Versioned SessionState) (w : SessionWorld) : Prop :=
  Slot.Precedes (some resource) w.record

theorem read_permanent (resource : Versioned SessionState) :
    (options.setting D).Permanent (Read resource) :=
  fun _ _ _ _ _ _ hg h ↦ h.trans hg.since.precedes

/-- The marks have been reached. -/
def Reached (reached : List AttemptMark) (s : AttemptWorld) : Prop := reached ⊆ s.trace

theorem reached_permanent (reached : List AttemptMark) :
    (options.attemptSetting D).Permanent (Reached reached) :=
  fun _ _ _ _ hs ht hg h _ hm ↦ trace_permanent _ hs ht hg (h hm)

/-- Only a replacement changes the document. -/
theorem record_of_not_replace {pid : ℕ} {e : SessionEffect} {x : SessionChoice}
    {w w' : SessionWorld} {a : e.Answer} (he : ∀ resource value purpose,
      e ≠ .replace resource value purpose)
    (h : handleSession pid e x w = some (a, w')) : w'.record = w.record := by
  by_cases hlocal : e.isLocal
  · rw [handle_local pid hlocal h]
  · cases e with
    | replace resource value purpose => exact absurd rfl (he _ _ _)
    | nextIds turns messages =>
      change (if _ then _ else _) = _ at h
      split at h
      · cases h
        rfl
      · cases h
    | _ => exact absurd rfl hlocal

/-- **The step lemma.** A request that marks only what is settled keeps the order. -/
theorem inOrder_of_request {reached : List AttemptMark} {e : SessionEffect}
    {known : List (Versioned SessionState)} {x : SessionChoice} {a : e.Answer} {s : AttemptWorld}
    {w : SessionWorld} (hmarks : Marks reached known e) (hknown : ∀ r ∈ known, Read r s.state)
    (hinv : options.Inv s.state) (hs : InOrder s) (hreached : Reached reached s)
    (ha : handleSession p.1 e x s.state = some (a, w)) (hinv' : options.Inv w)
    (hg : options.Guarantee p.2 e s.state w) : InOrder ⟨w, s.trace⟩ := by
  obtain ⟨old, hold, -⟩ := id hinv
  refine ⟨fun resource hread past c hpast ↦ ?_, fun resource hread key receipt hr ↦ ?_⟩
  · obtain ⟨before, hbefore, hall⟩ := hs.attempts old hold past c hpast
    obtain ⟨new, hnew, hext⟩ := hg.since.document old hold
    obtain rfl : new = resource := Option.some.inj (hnew.symm.trans hread)
    refine ⟨before, hbefore.trans (accepted_grows hinv hinv' hg.since hold hread),
      fun c' hc' ↦ ⟨(hall c' hc').1, fun hne ↦ ((hall c' hc').2 hne).extends hext⟩⟩
  · by_cases hsame : w.record = s.state.record
    · exact hs.receipts resource (hsame ▸ hread) key receipt hr
    cases e with
    | replace read value purpose =>
      rcases handle_replace p.1 (hknown read hmarks.1) ha with ⟨rfl, -⟩ | ⟨hrecord, rfl⟩
      · exact absurd rfl hsame
      · cases hread
        rcases hmarks.2 key receipt hr with hsettled | hbefore
        · exact hsettled.mono hreached
        · exact hs.receipts read hrecord key receipt hbefore
    | _ => exact absurd (record_of_not_replace (by simp) ha) hsame

/-- **A call as it is**, as a part of a marked one: it may mark what is settled when it starts. -/
theorem meets_lift {β : Type} {reached : List AttemptMark} {m : SessionProg β}
    {Q' : β → Prop} {known : List (Versioned SessionState)}
    (hm : m.WithinKnown documentsRead (Marks reached) Q' known)
    {P : SessionWorld → Prop} {Q : β → SessionWorld → Prop}
    {T : ServiceFailure → SessionWorld → Prop} (h : (options.setting D).Meets p P m Q T)
    (hknown : ∀ w, P w → ∀ r ∈ known, Read r w) :
    (options.attemptSetting D).Meets p (fun s ↦ Reached reached s ∧ P s.state) m.lift
      (fun b s ↦ Reached reached s ∧ Q b s.state) fun e s ↦ Reached reached s ∧ T e s.state := by
  intro s hs ⟨hf, hp⟩
  refine Safe.lift Read (reached_permanent reached) read_permanent ?_ ?_ hm
    (hknown _ hp) hf (h s.state hs.1 hp)
  · intro e s x a t hs ha r hr
    cases e with
    | get =>
      cases ha
      have hread : s.record = some r := Option.mem_toList.mp hr
      rw [Read, hread]
      exact .refl _
    | _ => cases hr
  · intro e known x a s t hmarks hknown hinv hs hf ha ht hg
    exact inOrder_of_request (p := p) hmarks hknown hinv hs hf ha ht hg

/-! ## What each call requests -/

section Requests

variable {β : Type} {reached : List AttemptMark} {known : List (Versioned SessionState)}
  {Q : β → Prop}

/-- Requests that replace nothing. -/
def ReplacesNothing : SessionEffect → Prop
  | .replace .. => False
  | _ => True

theorem marks_of_replacesNothing (known : List (Versioned SessionState)) (e : SessionEffect)
    (h : ReplacesNothing e) : Marks reached known e := by
  cases e with
  | replace => cases h
  | _ => trivial

/-- A part that replaces nothing, and what follows it. -/
theorem within_seq {γ : Type} {m : SessionProg γ} {f : γ → SessionProg β}
    (hm : m.Within ReplacesNothing)
    (hf : ∀ c, (f c).WithinKnown documentsRead (Marks reached) Q known) :
    (m >>= f).WithinKnown documentsRead (Marks reached) Q known :=
  (hm.withinKnown marks_of_replacesNothing).bind (marks_accumulates reached) fun c _ ↦ hf c

theorem within_required {k : Versioned SessionState → SessionProg β}
    (hk : ∀ r, (k r).WithinKnown documentsRead (Marks reached) Q (r :: known)) :
    (required >>= k).WithinKnown documentsRead (Marks reached) Q known := by
  refine ⟨trivial, fun found ↦ ?_⟩
  cases found with
  | none => trivial
  | some r => exact hk r

theorem within_get {k : Slot SessionState → SessionProg β}
    (hnone : (k none).WithinKnown documentsRead (Marks reached) Q known)
    (hk : ∀ r, (k (some r)).WithinKnown documentsRead (Marks reached) Q (r :: known)) :
    (Prog.perform SessionEffect.get >>= k).WithinKnown documentsRead (Marks reached) Q known := by
  refine ⟨trivial, fun found ↦ ?_⟩
  cases found with
  | none => exact hnone
  | some r => exact hk r

theorem within_replace {resource : Versioned SessionState} {value : SessionState}
    {purpose : WritePurpose}
    (h : Marks reached known (.replace resource value purpose)) :
    (replaceSession resource value purpose).WithinKnown documentsRead (Marks reached)
      (fun _ ↦ True) known := by
  refine ⟨h, fun reply ↦ ?_⟩
  cases reply <;> trivial

/-- A replacement that leaves the receipts alone. -/
theorem marks_of_receipts {resource : Versioned SessionState} {value : SessionState}
    (purpose : WritePurpose) (hknown : resource ∈ known)
    (h : value.receipts = resource.value.receipts) :
    Marks reached known (.replace resource value purpose) :=
  ⟨hknown, fun _ _ hr ↦ .inr (h ▸ hr)⟩

theorem within_ofExcept {γ : Type} (r : Except ServiceFailure γ) :
    (Prog.ofExcept r : SessionProg γ).Within ReplacesNothing := by
  cases r <;> trivial

theorem within_orThrow {γ : Type} (r : Except AgentsApiError γ) :
    (orThrow r).Within ReplacesNothing := within_ofExcept _

theorem within_orElse (refusal : Option AgentsApiError) :
    (orElse refusal).Within ReplacesNothing := by
  cases refusal <;> trivial

theorem within_request {e : SessionEffect} (he : ReplacesNothing e) :
    (Prog.perform e : SessionProg e.Answer).Within ReplacesNothing := Prog.within_perform he

/-- A request that may fail. -/
theorem within_attempt {γ : Type} {e : SessionEffect} (he : ReplacesNothing e)
    (f : e.Answer → Except ServiceFailure γ) :
    (Prog.perform e >>= fun a ↦ Prog.ofExcept (f a) : SessionProg γ).Within ReplacesNothing :=
  (within_request he).bind fun _ ↦ within_ofExcept _

theorem within_observeTurn (binding : SessionTurnBinding) :
    (observeTurn binding).Within ReplacesNothing := by
  unfold observeTurn
  split
  · trivial
  · exact within_attempt (e := .observe binding.turn) trivial _

theorem within_observeTurns (turns : List SessionTurnBinding) :
    (observeTurns turns).Within ReplacesNothing := by
  induction turns with
  | nil => trivial
  | cons binding turns ih =>
    exact (within_observeTurn binding).bind fun item ↦ ih.bind fun items ↦ trivial

theorem within_observe (state : SessionState) : (observe state).Within ReplacesNothing := by
  refine (within_observeTurns state.turns).bind fun items ↦ ?_
  refine (within_request (e := .subagents) trivial).bind fun found ↦ ?_
  refine (within_ofExcept found).bind fun subagents ↦ ?_
  refine (within_request (e := .environmentFailed) trivial).bind fun found ↦ ?_
  exact (within_ofExcept found).bind fun failed ↦ trivial

/-- Delivering a command changes no receipt. -/
theorem within_deliverCommand (resource : Versioned SessionState) (command : SessionCommand) :
    (options.deliverCommand resource command).WithinKnown documentsRead (Marks reached)
      (fun _ ↦ True) known := by
  cases command with
  | start turnId input =>
    simp only [deliverCommand]
    split
    · trivial
    next binding hbinding =>
    refine within_seq (within_orElse _) fun _ ↦ ?_
    split
    · refine within_seq (within_request (e := .execute (.cancel turnId)) trivial) fun a ↦ ?_
      refine within_seq (within_ofExcept a) fun _ ↦ ?_
      refine within_seq (within_request (e := .observe binding.turn) trivial) fun a ↦ ?_
      refine within_seq (within_ofExcept a) fun item ↦ ?_
      refine within_seq (within_request (e := .now) trivial) fun now ↦ ?_
      refine within_required fun current ↦ ?_
      exact within_replace (marks_of_receipts _ List.mem_cons_self rfl)
    · refine within_seq (within_request (e := .execute (.start turnId input)) trivial) fun a ↦ ?_
      exact within_seq (within_ofExcept a) fun _ ↦ trivial
  | steer turnId input operationId =>
    refine within_seq (within_request (e := .execute (.steer turnId input operationId)) trivial)
      fun a ↦ ?_
    exact within_seq (within_ofExcept a) fun _ ↦ trivial
  | cancel turnId =>
    refine within_seq (within_request (e := .execute (.cancel turnId)) trivial) fun a ↦ ?_
    exact within_seq (within_ofExcept a) fun _ ↦ trivial
  | toolResult turnId afterItemId acceptedOrdinal event =>
    refine within_seq (within_request (e := .execute (.toolResult event)) trivial) fun a ↦ ?_
    exact within_seq (within_ofExcept a) fun _ ↦ trivial

theorem within_recordRefusal (key : String) (resource : Versioned SessionState)
    (command : SessionCommand) (error : ServiceFailure) :
    (recordRefusal key resource command error).WithinKnown documentsRead (Marks reached)
      (fun _ ↦ True) known := by
  unfold recordRefusal
  split
  · trivial
  split
  · trivial
  dsimp only
  split
  · refine within_required fun current ↦ ?_
    refine within_seq (within_request (e := .now) trivial) fun now ↦ ?_
    refine Prog.WithinKnown.bind (marks_accumulates reached)
      (within_replace (marks_of_receipts _ List.mem_cons_self rfl)) fun _ _ ↦ ?_
    trivial
  · trivial

theorem within_update (input : SessionUpdate) :
    (options.update input).WithinKnown documentsRead (Marks reached) (fun _ ↦ True) known := by
  refine within_required fun resource ↦ ?_
  refine within_seq (within_request (e := .now) trivial) fun now ↦ ?_
  refine within_seq (within_orThrow _) fun _ ↦ ?_
  refine within_seq (within_observe resource.value) fun observation ↦ ?_
  refine within_seq (within_orThrow _) fun agent ↦ ?_
  refine within_seq (within_orElse _) fun _ ↦ ?_
  refine Prog.WithinKnown.bind (marks_accumulates reached)
    (within_replace (marks_of_receipts _ List.mem_cons_self rfl)) fun _ _ ↦ ?_
  trivial

theorem within_completeTurn (turnId : String) :
    (completeTurn turnId).WithinKnown documentsRead (Marks reached) (fun _ ↦ True) known := by
  refine within_get trivial fun resource ↦ ?_
  dsimp only
  split
  · trivial
  refine within_seq (within_observeTurn _) fun observation ↦ ?_
  split
  · trivial
  refine within_seq (within_request (e := .saved turnId) trivial) fun a ↦ ?_
  refine within_seq (within_ofExcept a) fun saved ↦ ?_
  refine within_seq (within_request (e := .subagents) trivial) fun a ↦ ?_
  refine within_seq (within_ofExcept a) fun subagents ↦ ?_
  split
  · refine Prog.WithinKnown.bind (marks_accumulates reached)
      (within_replace (marks_of_receipts _ List.mem_cons_self rfl)) fun _ _ ↦ ?_
    trivial
  · trivial

/-- A planned request files a receipt that is not dispatched, and changes no other. -/
theorem within_plan (state : SessionState) (observation : SessionObservation)
    (input : List SessionInput) (key : String) (anchors : List (String × String)) :
    (options.plan state observation input key anchors).WithinKnown documentsRead (Marks reached)
      (fun r ↦ ∃ receipt : Receipt, receipt.dispatched = false ∧ receipt.failure = none ∧
        r.1.receipts = state.receipts.set key receipt) known := by
  refine within_seq (within_request (e := .nextIds ..) trivial) fun ids ↦ ?_
  refine within_seq (within_request (e := .now) trivial) fun now ↦ ?_
  refine within_seq (within_orThrow _) fun planned ↦ ?_
  exact within_seq (within_orElse _) fun _ ↦ ⟨_, rfl, rfl, rfl⟩

theorem within_eventsAttempts (key : String) (input : List SessionInput) (attempts : ℕ) :
    (options.eventsAttempts key input attempts).WithinKnown documentsRead (Marks reached)
      (fun _ ↦ True) known := by
  induction attempts generalizing known with
  | zero => trivial
  | succ attempts ih =>
    refine within_required fun resource ↦ ?_
    refine within_seq (within_request (e := .now) trivial) fun now ↦ ?_
    refine within_seq (within_orThrow _) fun _ ↦ ?_
    split
    · split <;> trivial
    refine within_seq (within_observe resource.value) fun observation ↦ ?_
    refine within_seq (within_request (e := .itemAnchors) trivial) fun a ↦ ?_
    refine within_seq (within_ofExcept a) fun anchors ↦ ?_
    refine (within_plan resource.value observation input key anchors).bind
      (marks_accumulates reached) fun r hr ↦ ?_
    obtain ⟨receipt, hfresh, hnone, hreceipts⟩ := hr
    have hadmit : (admitInput key (messageEvents input)).Within ReplacesNothing := by
      unfold admitInput
      split
      · trivial
      · exact within_attempt (e := .admitInput ..) trivial _
    refine within_seq hadmit fun _ ↦ ?_
    refine Prog.WithinKnown.catching (marks_accumulates reached) ?_ fun error ↦ ?_
    · refine (within_replace ⟨List.mem_cons_self, fun key' receipt' hr' ↦ ?_⟩).bind
        (marks_accumulates reached) fun _ _ ↦ trivial
      rw [hreceipts] at hr'
      by_cases hkey : key' = key
      · rw [hkey, OrderedMap.get?_set_self] at hr'
        cases hr'
        left
        rw [ReceiptSettled, hfresh]
        exact hnone
      · rw [OrderedMap.get?_set_of_ne _ hkey] at hr'
        exact .inr hr'
    · split
      · exact ih
      · trivial

end Requests

/-! ## The dispatcher -/

/-- Reaching the beginning of an attempt, when attempts at everything accepted before have ended. -/
theorem inOrder_of_began {s : AttemptWorld} {before : List AcceptedCommand} {c : AcceptedCommand}
    (hs : InOrder s) (hended : ∀ c' ∈ before, Ended c' s.trace)
    (hbefore : ∀ resource, s.state.record = some resource →
      before ++ [c] <+: resource.value.accepted ∧
        ∀ c' ∈ before, c'.key ≠ c.key → Filed c'.key resource) :
    InOrder ⟨s.state, s.trace ++ [.began c]⟩ := by
  refine ⟨fun resource hread past c' hpast ↦ ?_, fun resource hread key receipt hr ↦ ?_⟩
  · rcases List.prefix_concat_iff.mp hpast with heq | hpast
    · obtain ⟨rfl, hlast⟩ := List.append_inj' heq rfl
      cases hlast
      obtain ⟨hbegins, hfiled⟩ := hbefore resource hread
      exact ⟨before, hbegins, fun c' hc' ↦ ⟨hended c' hc', hfiled c' hc'⟩⟩
    · exact hs.attempts resource hread past c' hpast
  · exact (hs.receipts resource hread key receipt hr).mono (List.subset_append_left _ _)

/-- Reaching the end of an attempt. -/
theorem inOrder_of_end {s : AttemptWorld} {m : AttemptMark} (hm : ∀ c, m ≠ .began c)
    (hs : InOrder s) : InOrder ⟨s.state, s.trace ++ [m]⟩ := by
  refine ⟨fun resource hread past c hpast ↦ ?_, fun resource hread key receipt hr ↦ ?_⟩
  · rcases List.prefix_concat_iff.mp hpast with heq | hpast
    · obtain ⟨-, hlast⟩ := List.append_inj' heq rfl
      cases hlast
      exact absurd rfl (hm c)
    · exact hs.attempts resource hread past c hpast
  · exact (hs.receipts resource hread key receipt hr).mono (List.subset_append_left _ _)

section Dispatcher

variable {w₁ : SessionWorld} {old : Versioned SessionState} {finished done : List AcceptedCommand}
  {failure : Option ReceiptFailure}

/-- What a dispatcher rests on while it waits: the document it read is an old one, the requests of
these commands are behind it, and the commands of the present request have come to this. -/
structure Dispatching (w₁ : SessionWorld) (finished done : List AcceptedCommand)
    (failure : Option ReceiptFailure) (s : AttemptWorld) : Prop where
  since : w₁.Since s.state
  ended : ∀ c ∈ finished, Ended c s.trace
  filed : ∀ c ∈ finished, ∀ resource, s.state.record = some resource → Filed c.key resource
  settled : Settled done failure s.trace

/-- More marks do not disturb a dispatcher. -/
theorem Dispatching.mark {s : AttemptWorld} (h : Dispatching w₁ finished done failure s)
    (m : AttemptMark) : Dispatching w₁ finished done failure ⟨s.state, s.trace ++ [m]⟩ where
  since := h.since
  ended c hc := (h.ended c hc).mono (List.subset_append_left _ _)
  filed := h.filed
  settled := h.settled.mono (List.subset_append_left _ _)

theorem dispatching_permanent (w₁ : SessionWorld) (finished done : List AcceptedCommand)
    (failure : Option ReceiptFailure) :
    (options.attemptSetting D).Permanent (Dispatching w₁ finished done failure) := by
  intro q e s t hs ht hg h
  cases e with
  | request e =>
    obtain ⟨hg, htrace⟩ := hg
    refine ⟨h.since.trans hg.since, htrace ▸ h.ended, fun c hc resource hread ↦ ?_,
      htrace ▸ h.settled⟩
    obtain ⟨old, hold, -⟩ := hs.1
    obtain ⟨new, hnew, hext⟩ := hg.since.document old hold
    obtain rfl : new = resource := Option.some.inj (hnew.symm.trans hread)
    exact (h.filed c hc old hold).extends hext
  | mark m =>
    obtain rfl := hg
    exact h.mark m

/-- A part that files no receipt disturbs no assertion that no step breaks. -/
theorem meets_part {β : Type} {P : AttemptWorld → Prop} {m : SessionProg β} {F Q' : β → Prop}
    (hP : (options.attemptSetting D).Permanent P) (hm : (options.setting D).Yields p m F)
    (hwithin : m.WithinKnown documentsRead (Marks []) Q' []) :
    (options.attemptSetting D).Meets p P m.lift (fun _ ↦ P) fun _ ↦ P :=
  ((meets_lift hwithin hm fun _ _ _ h ↦ nomatch h).frame hP).conseq
    (fun _ _ h ↦ ⟨h, List.nil_subset _, trivial⟩) (fun _ _ _ h ↦ h.1) fun _ _ _ h ↦ h.1

/-- Reading the document on behalf of a marked call. -/
theorem meets_read {β : Type} {P : AttemptWorld → Prop} {k : Slot SessionState → AttemptProg β}
    {Q : β → AttemptWorld → Prop} {T : ServiceFailure → AttemptWorld → Prop}
    (hP : (options.attemptSetting D).Permanent P)
    (h : ∀ s₀ resource, options.Inv s₀.state → InOrder s₀ → P s₀ →
      s₀.state.record = some resource → (options.attemptSetting D).Meets p
        (fun s ↦ P s ∧ s₀.state.Since s.state ∧ s₀.trace ⊆ s.trace) (k (some resource)) Q T) :
    (options.attemptSetting D).Meets p P
      ((Prog.perform SessionEffect.get : SessionProg _).lift >>= k) Q T := by
  refine meets_call (e := Marked.request SessionEffect.get)
    (fun a s ↦ P s ∧ ∃ s₀, options.Inv s₀.state ∧ InOrder s₀ ∧ P s₀ ∧ s₀.state.record = a ∧
      s₀.state.Since s.state ∧ s₀.trace ⊆ s.trace)
    hP.stable (fun s x a t hs hp _ ha ↦ ?_) fun a s hs hread ↦ ?_
  · cases ha
    exact ⟨hs, ⟨guarantee_refl _ _ _, rfl⟩, hp, s, hs.1, hs.2, hp, rfl, .refl _, List.Subset.refl _⟩
  · obtain ⟨hp, s₀, hinv₀, hs₀, hp₀, rfl, hsince⟩ := hread
    obtain ⟨resource, hresource, hrec⟩ := hinv₀
    rw [hresource]
    exact h s₀ resource ⟨resource, hresource, hrec⟩ hs₀ hp₀ hresource s hs ⟨hp, hsince⟩

section

variable (hcall : ∀ key input, p.2 ≠ Call.events key input) (hinv₁ : options.Inv w₁)
  (hold : w₁.record = some old)
include hcall hinv₁ hold

/-- One attempt: it begins when attempts at all before it have ended, and settles the command. -/
theorem meets_attemptCommand {before : List AcceptedCommand} (hsub : before ⊆ finished)
    {key : String} (hkey : ∀ c ∈ done, c.key = key) (index : ℕ)
    (resource : Versioned SessionState) (command : SessionCommand)
    (hbefore : before ++ done ++ [⟨key, index, command⟩] <+: old.value.accepted) :
    (options.attemptSetting D).Meets p (Dispatching w₁ finished done failure)
      (options.attemptCommand key index resource failure command)
      (fun r ↦ Dispatching w₁ finished (done ++ [⟨key, index, command⟩]) r.2) fun _ _ ↦ True := by
  have hpermanent : (options.attemptSetting D).Permanent _ :=
    dispatching_permanent w₁ finished done failure
  refine Meets.bind (M := fun _ ↦ Dispatching w₁ finished done failure)
    (meets_mark hpermanent.stable fun s hinv hs hd ↦ ⟨?_, hd.mark _⟩) fun _ ↦ ?_
  · refine @inOrder_of_began _ (before ++ done) _ hs (fun c hc ↦ ?_) fun current hread ↦ ?_
    · rcases List.mem_append.mp hc with hc | hc
      · exact hd.ended c (hsub hc)
      · exact hd.settled.ended c hc
    · refine ⟨hbefore.trans (accepted_grows hinv₁ hinv hd.since hold hread), fun c hc hne ↦ ?_⟩
      rcases List.mem_append.mp hc with hc | hc
      · exact hd.filed c (hsub hc) current hread
      · exact absurd (hkey c hc) hne
  refine Meets.catching (U := fun _ ↦ Dispatching w₁ finished done failure) ?_ fun error ↦ ?_
  · refine Meets.bind (meets_part hpermanent (yields_deliverCommand hcall resource command)
      (within_deliverCommand resource command)) fun resource ↦ ?_
    refine Meets.bind (meets_mark hpermanent.stable fun s _ hs hd ↦
      ⟨inOrder_of_end (fun _ ↦ nofun) hs, ?_⟩) fun _ ↦ meets_ret fun _ _ h ↦ h
    exact { hd.mark _ with settled := hd.settled.succeed _ }
  · refine Meets.bind ((meets_part hpermanent
      (yields_recordRefusal hcall key resource command error)
      (within_recordRefusal key resource command error)).conseq (fun _ _ h ↦ h)
        (fun _ _ _ h ↦ h) fun _ _ _ _ ↦ trivial) fun r ↦ ?_
    refine Meets.bind (meets_mark hpermanent.stable fun s _ hs hd ↦
      ⟨inOrder_of_end (fun _ ↦ nofun) hs, ?_⟩) fun _ ↦ meets_ret fun _ _ h ↦ h
    exact { hd.mark _ with settled := hd.settled.refuse _ r.2 }

theorem meets_attemptCommands {before : List AcceptedCommand} (hsub : before ⊆ finished)
    (key : String) (commands : List SessionCommand) :
    ∀ {done : List AcceptedCommand}, (∀ c ∈ done, c.key = key) → ∀ (index : ℕ)
      (resource : Versioned SessionState) (failure : Option ReceiptFailure),
      before ++ done ++ receiptCommands key index commands <+: old.value.accepted →
      (options.attemptSetting D).Meets p (Dispatching w₁ finished done failure)
        (options.attemptCommands key index commands resource failure)
        (fun r ↦ Dispatching w₁ finished (done ++ receiptCommands key index commands) r.2)
        fun _ _ ↦ True := by
  induction commands with
  | nil =>
    intro done _ index resource failure _
    refine meets_ret fun s _ hd ↦ ?_
    rwa [receiptCommands, List.append_nil]
  | cons command commands ih =>
    intro done hkey index resource failure hbefore
    rw [receiptCommands, List.append_cons] at hbefore
    rw [receiptCommands, List.append_cons]
    have hone : before ++ done ++ [⟨key, index, command⟩] <+: old.value.accepted :=
      (List.prefix_append _ _).trans hbefore
    refine Meets.bind (meets_attemptCommand hcall hinv₁ hold hsub hkey index resource command hone)
      fun r ↦ ?_
    refine ih (fun c hc ↦ ?_) (index + 1) r.1 r.2 (by rwa [← List.append_assoc])
    rcases List.mem_append.mp hc with hc | hc
    · exact hkey c hc
    · rw [List.mem_singleton.mp hc]

/-- The receipt as it is filed once its commands are settled. -/
def acknowledgedReceipt (receipt : Receipt) (failure : Option ReceiptFailure) : Receipt :=
  { receipt with dispatched := true, failure }

/-- The document in which a receipt is acknowledged. -/
def acknowledgedState (current : SessionState) (key : String) (receipt : Receipt)
    (failure : Option ReceiptFailure) : SessionState :=
  { current with receipts := current.receipts.set key (acknowledgedReceipt receipt failure) }

omit hcall hinv₁ hold in
/-- An acknowledgement files one receipt, whose commands are settled. -/
theorem marks_acknowledge {reached : List AttemptMark} {current : Versioned SessionState}
    {key : String} {receipt : Receipt}
    (hsettled : Settled (receiptCommands key 0 receipt.commands) failure reached) :
    Marks reached [current] (.replace current
      (acknowledgedState current.value key receipt failure) (.acknowledge key)) := by
  refine ⟨List.mem_cons_self, fun key' receipt' hr ↦ ?_⟩
  by_cases hkey : key' = key
  · subst hkey
    rw [acknowledgedState, OrderedMap.get?_set_self] at hr
    cases hr
    exact .inl hsettled
  · rw [acknowledgedState, OrderedMap.get?_set_of_ne _ hkey] at hr
    exact .inr hr

omit hcall hinv₁ hold in
/-- A receipt that was acknowledged is marked from then on. -/
theorem filed_of_replaced {current resource : Versioned SessionState} {key : String}
    {receipt : Receipt} {w : SessionWorld}
    (h : Replaced current (acknowledgedState current.value key receipt failure) w)
    (hread : w.record = some resource) : Filed key resource := by
  obtain ⟨w₀, hrecord, hsince⟩ := h
  obtain ⟨new, hnew, hext⟩ := hsince.document _ hrecord
  obtain rfl : new = resource := Option.some.inj (hnew.symm.trans hread)
  have hfiled : Filed key ⟨current.revision + 1,
      acknowledgedState current.value key receipt failure⟩ :=
    ⟨_, OrderedMap.get?_set_self _ _ _, rfl⟩
  exact hfiled.extends hext

omit hinv₁ in
/-- The acknowledgement: the commands of the receipt are settled, and the dispatcher leaves them
behind. -/
theorem meets_acknowledge {w₀ : SessionWorld} {current : Versioned SessionState}
    (hsince : w₁.Since w₀) (hread : w₀.record = some current) {key : String} {receipt : Receipt}
    (hr : old.value.receipts.get? key = some receipt) :
    (options.attemptSetting D).Meets p
      (fun s ↦ Dispatching w₁ finished (receiptCommands key 0 receipt.commands) failure s ∧
        w₀.Since s.state)
      (replaceSession current (acknowledgedState current.value key receipt failure)
        (.acknowledge key)).lift
      (fun _ ↦ Dispatching w₁ (finished ++ receiptCommands key 0 receipt.commands) [] none)
      fun _ _ ↦ True := by
  intro s hs ⟨hd, hsince₀⟩
  obtain ⟨current', hcurrent, hext⟩ := hsince.document old hold
  rw [hread] at hcurrent
  cases hcurrent
  obtain ⟨stored, hstored, hf⟩ := hext.receipts key receipt hr
  have hreplace : (options.attemptSetting D).Meets p _ _ _ _ :=
    meets_lift (within_replace (marks_acknowledge hd.settled))
      (meets_replaced hcall hread rfl (keeps_acknowledge hstored hf failure)
        (keepsFailures_acknowledge _ key _)) fun w hw r hr ↦ by
      rw [List.mem_singleton.mp hr, Read, ← hread]
      exact hw.precedes
  refine Safe.mono (fun _ t _ h ↦ ?_) (fun _ _ _ _ ↦ trivial) hs
    ((hreplace.frame (dispatching_permanent w₁ finished _ failure)) s hs
      ⟨hd, List.Subset.refl _, hsince₀⟩)
  obtain ⟨hd', -, hreplaced⟩ := h
  refine ⟨hd'.since, fun c hc ↦ ?_, fun c hc resource hresource ↦ ?_, settled_nil⟩
  · rcases List.mem_append.mp hc with hc | hc
    · exact hd'.ended c hc
    · exact hd'.settled.ended c hc
  · rcases List.mem_append.mp hc with hc | hc
    · exact hd'.filed c hc resource hresource
    · rw [(mem_receiptCommands hc).1]
      exact filed_of_replaced hreplaced hresource

/-- The dispatcher goes through the receipts of the document it read. -/
theorem meets_attemptReceipts (receipts : List (String × Receipt)) :
    ∀ {before finished : List AcceptedCommand}, before ⊆ finished →
      (∀ e ∈ receipts, old.value.receipts.get? e.1 = some e.2) →
      (∀ e ∈ receipts, if e.2.dispatched then receiptCommands e.1 0 e.2.commands ⊆ finished
        else e.2.failure = none) →
      before ++ acceptedCommands receipts <+: old.value.accepted →
      ∀ resource, (options.attemptSetting D).Meets p (Dispatching w₁ finished [] none)
        (options.attemptReceipts receipts resource) (fun _ _ ↦ True) fun _ _ ↦ True := by
  induction receipts with
  | nil =>
    intro before finished _ _ _ _ resource
    exact meets_ret fun _ _ _ ↦ trivial
  | cons e receipts ih =>
    intro before finished hsub hmem hskip hbefore resource
    obtain ⟨key, receipt⟩ := e
    have hreceipt := hmem _ List.mem_cons_self
    have hmem := fun e he ↦ hmem e (List.mem_cons_of_mem _ he)
    have hhead := hskip _ List.mem_cons_self
    have hskip := fun e he ↦ hskip e (List.mem_cons_of_mem _ he)
    rw [acceptedCommands, List.flatMap_cons, ← List.append_assoc] at hbefore
    rw [attemptReceipts]
    split
    · next hdispatched =>
      rw [if_pos hdispatched] at hhead
      exact ih (List.append_subset.mpr ⟨hsub, hhead⟩) hmem hskip hbefore resource
    next hpending =>
    rw [if_neg hpending] at hhead
    have hcommands : before ++ [] ++ receiptCommands key 0 receipt.commands <+:
        old.value.accepted := by
      rw [List.append_nil]
      exact (List.prefix_append _ _).trans hbefore
    -- The commands of this receipt follow those of the receipts before it.
    refine Meets.bind (meets_attemptCommands hcall hinv₁ hold hsub key receipt.commands
      (List.forall_mem_nil _) 0 resource none hcommands) fun r ↦ ?_
    refine meets_read (dispatching_permanent _ _ _ _) fun s₀ current hinv₀ _ hd₀ hread ↦ ?_
    dsimp only
    split
    · exact meets_ret fun _ _ _ ↦ trivial
    have hnone : (r.2 <|> receipt.failure) = r.2 := by
      rw [hhead]
      cases r.2 <;> rfl
    rw [hnone]
    refine Meets.bind ((meets_acknowledge hcall hold hd₀.since hread hreceipt).pre
      fun s _ h ↦ ⟨h.1, h.2.1⟩) fun resource ↦ ?_
    refine ih ?_ hmem (fun e he ↦ ?_) hbefore resource
    · exact List.append_subset.mpr ⟨List.subset_append_of_subset_left _ hsub,
        List.subset_append_right _ _⟩
    · have hrest := hskip e he
      split
      · next hdispatched =>
        rw [if_pos hdispatched] at hrest
        exact List.subset_append_of_subset_left _ hrest
      · next hpending =>
        rwa [if_neg hpending] at hrest

end

theorem meets_attemptDispatch (hcall : ∀ key input, p.2 ≠ Call.events key input) :
    (options.attemptSetting D).Meets p (fun _ ↦ True) options.attemptDispatch (fun _ _ ↦ True)
      fun _ _ ↦ True := by
  refine meets_read (fun _ _ _ _ _ _ _ _ ↦ trivial) fun s₁ resource hinv₁ hs₁ _ hread ↦ ?_
  -- What the document shows as dispatched was settled when it was read.
  let skipped := acceptedCommands (resource.value.receipts.entries.filter (·.2.dispatched))
  have hskipped : ∀ c ∈ skipped, Ended c s₁.trace ∧ Filed c.key resource := by
    intro c hc
    obtain ⟨⟨key, receipt⟩, he, hc⟩ := List.mem_flatMap.mp hc
    obtain ⟨he, hd⟩ := List.mem_filter.mp he
    have hr : resource.value.receipts.get? key = some receipt := OrderedMap.get?_eq_some.mpr he
    have hsettled := hs₁.receipts resource hread key receipt hr
    rw [ReceiptSettled, if_pos hd] at hsettled
    exact ⟨hsettled.ended c hc, receipt, (mem_receiptCommands hc).1 ▸ hr, hd⟩
  have hstart : ∀ s, True ∧ s₁.state.Since s.state ∧ s₁.trace ⊆ s.trace →
      Dispatching s₁.state skipped [] none s := by
    rintro s ⟨-, hsince, hsub⟩
    refine ⟨hsince, fun c hc ↦ (hskipped c hc).1.mono hsub, fun c hc current hcurrent ↦ ?_,
      settled_nil⟩
    obtain ⟨new, hnew, hext⟩ := hsince.document resource hread
    obtain rfl : new = current := Option.some.inj (hnew.symm.trans hcurrent)
    exact (hskipped c hc).2.extends hext
  have hpermanent : (options.attemptSetting D).Permanent _ :=
    dispatching_permanent s₁.state skipped [] none
  have hpart {β : Type} {m : SessionProg β} {F Q' : β → Prop}
      (hm : (options.setting D).Yields p m F)
      (hwithin : m.WithinKnown documentsRead (Marks []) Q' []) :
      (options.attemptSetting D).Meets p (Dispatching s₁.state skipped [] none) m.lift
        (fun _ ↦ Dispatching s₁.state skipped [] none) fun _ _ ↦ True :=
    (meets_part hpermanent hm hwithin).conseq (fun _ _ h ↦ h) (fun _ _ _ h ↦ h)
      fun _ _ _ _ ↦ trivial
  refine Meets.pre (P := Dispatching s₁.state skipped [] none) ?_ fun s _ h ↦ hstart s h
  refine Meets.bind (hpart (yields_request rfl)
    ((within_request (e := .now) trivial).withinKnown marks_of_replacesNothing)) fun now ↦ ?_
  split
  · exact meets_ret fun _ _ _ ↦ trivial
  refine Meets.bind (hpart yields_orElse
    ((within_orElse _).withinKnown marks_of_replacesNothing)) fun _ ↦ ?_
  refine Meets.bind (hpart (yields_attempt (e := .execute .initializeExecution) rfl)
    ((within_attempt (e := .execute .initializeExecution) trivial _).withinKnown
      marks_of_replacesNothing)) fun _ ↦ ?_
  have hnil : ([] : List AcceptedCommand) ⊆ skipped := List.nil_subset _
  refine meets_attemptReceipts hcall hinv₁ hread _ hnil ?_ (fun e he ↦ ?_) ?_ resource
  · exact fun e he ↦ OrderedMap.get?_eq_some.mpr he
  · split
    · next hd => exact fun c hc ↦ List.mem_flatMap.mpr ⟨e, List.mem_filter.mpr ⟨he, hd⟩, hc⟩
    · next hd =>
      have hpending := hs₁.receipts resource hread e.1 e.2 (OrderedMap.get?_eq_some.mpr he)
      rwa [ReceiptSettled, if_neg hd] at hpending
  · rw [List.nil_append]
    exact List.prefix_rfl

end Dispatcher

/-! ## Runs -/

/-- Every call but a recovery, in any environment. -/
def Unrecovered : Discipline SessionWorld SessionEffect Call SessionChoice where
  starts _ call _ := call ≠ .recoverPi
  answers _ _ _ _ := True

instance : Unrecovered.Checked :=
  ⟨fun _ call _ ↦ inferInstanceAs (Decidable (call ≠ .recoverPi)), fun _ _ _ _ ↦ .isTrue trivial⟩

/-- A call that marks no receipt keeps the order. -/
theorem meets_unmarked {call : Call} (pid : ℕ)
    (hwithin : (options.body call).WithinKnown documentsRead (Marks []) (fun _ ↦ True) []) :
    (options.attemptSetting D).Meets (pid, call) (fun _ ↦ True) (options.body call).lift
      (fun _ _ ↦ True) fun _ _ ↦ True :=
  (meets_lift hwithin (meets_body (pid, call)) fun _ _ _ h ↦ nomatch h).conseq
    (fun _ _ _ ↦ ⟨fun _ h ↦ (nomatch h), trivial⟩) (fun _ _ _ _ ↦ trivial) fun _ _ _ _ ↦ trivial

theorem meets_attempting (pid : ℕ) {call : Call} (hcall : call ≠ .recoverPi) :
    (options.attemptSetting D).Meets (pid, call) (fun _ ↦ True) (options.attempting call)
      (fun _ _ ↦ True) fun _ _ ↦ True := by
  cases call with
  | events idempotencyKey input => exact meets_unmarked pid (within_eventsAttempts _ input 10)
  | dispatch => exact meets_attemptDispatch fun _ _ h ↦ by cases h
  | update input =>
    refine meets_unmarked pid ?_
    exact (within_update input).bind (marks_accumulates []) fun _ _ ↦ trivial
  | completeTurn turnId => exact meets_unmarked pid (within_completeTurn turnId)
  | recoverPi => exact absurd rfl hcall

theorem Opening.inOrder {start : SessionWorld} (h : options.Opening start) :
    InOrder ⟨start, []⟩ := by
  refine ⟨fun resource _ past c hpast ↦ ?_, fun resource hread key receipt hr ↦ ?_⟩
  · simp at hpast
  · cases h with
    | empty pi session =>
      cases hread
      cases hr
    | input pi session ids now input planned hturns hmessages h =>
      cases hread
      have hreceipts : (options.admitted (emptySession pi session) "initial" [.message input]
          planned).receipts = OrderedMap.set .empty "initial" _ := rfl
      by_cases hkey : key = "initial"
      · rw [hreceipts, hkey, OrderedMap.get?_set_self] at hr
        cases hr
        rfl
      · rw [hreceipts, OrderedMap.get?_set_of_ne _ hkey] at hr
        cases hr

theorem attempting_verified {start : SessionWorld} (h : options.Opening start) :
    (options.attemptSetting Unrecovered).Verified ⟨start, []⟩ (fun _ _ _ ↦ True)
      fun _ _ _ ↦ True where
  init := ⟨h.inv, h.inOrder⟩
  body p := by
    intro s hs hstarts
    exact meets_attempting p.1 hstarts s hs trivial
  post_stable _ _ := stable_true
  fail_stable _ _ := stable_true

end SessionOptions

abbrev AttemptConfig : Type :=
  Config AttemptWorld (Marked SessionEffect AttemptMark) (Marked.Answer SessionEffect.Answer)
    ServiceFailure Unit SessionOptions.Call

/-- A request is accepted and dispatched. -/
def sampleDispatch : List (Event SessionOptions.Call SessionChoice) :=
  sampleAdmission ++ .start 1 .dispatch :: List.replicate 8 (.resume 1 {})

def sampleSteering : List SessionInput :=
  [.message [⟨"user", ["hello"]⟩], .message [⟨"user", ["hurry"]⟩],
    .message [⟨"user", ["stop"]⟩]]

/-- The ids that the request takes. -/
def sampleIds : SessionChoice where
  turnIds := ["a", "b", "c"]
  messageIds := ["d", "e", "i"]
  operationIds := ["f", "g", "h"]

def sampleRefusal : List (Event SessionOptions.Call SessionChoice) :=
  .start 0 (.events "key" sampleSteering) :: List.replicate 5 (.resume 0 {}) ++
    .resume 0 sampleIds :: List.replicate 3 (.resume 0 {}) ++
    .start 1 .dispatch :: List.replicate 7 (.resume 1 {}) ++
    [.resume 1 { fault := some (.api ⟨404, "not found", some "not_found", none⟩) },
      .resume 1 {}, .resume 1 {}]

/-- The commands of the request. -/
def requestedCommand : ℕ → AcceptedCommand
  | 0 => ⟨"receipt:key", 0, .start "a" [⟨⟨"user", ["hello"]⟩, "d", none, 0⟩]⟩
  | 1 => ⟨"receipt:key", 1, .steer "a" [⟨"user", ["hurry"]⟩] "g"⟩
  | index => ⟨"receipt:key", index, .steer "a" [⟨"user", ["stop"]⟩] "h"⟩

/-- When an attempt begins, every command accepted earlier was delivered, or its failure is on
record. -/
def RecordedBefore (c : AttemptConfig) : Prop :=
  ∀ resource past command earlier later, c.state.state.record = some resource →
    c.state.trace = past ++ [.began command] →
    resource.value.accepted = earlier ++ command :: later → ∀ command' ∈ earlier,
      .succeeded command' ∈ past ∨ ∃ receipt,
        resource.value.receipts.get? command'.key = some receipt ∧ receipt.failure.isSome

end RatThings
