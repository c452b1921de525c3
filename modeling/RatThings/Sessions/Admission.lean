import Mathlib.Data.List.Pairwise
import RatThings.Library.Digest
import RatThings.Sessions.Callers

/-!
# Input is admitted once

What holds of a Session in every run: each accepted request is in the document exactly once and for
good, one Turn at a time takes input, and ordinals record the order of acceptance. A run begins with
a Session as `create` leaves it.

The callers are verified elsewhere; here their guarantees become statements about runs. A message
occurs once because the document holds exactly what the log of admissions holds (`Recorded`), and
the log only grows, by requests under keys that were not used before. So a request that is repeated
finds the receipt of its key and changes nothing, whichever of its copies was accepted.
-/

namespace RatThings

open Concurrent Service Setting

/-! ## The beginning of a run -/

/-- A Session without input. -/
def emptySession (pi : Bool) (session : AgentSession) : SessionState where
  pi := pi
  forkLock := none
  closing := false
  session := session
  turns := []
  receipts := .empty
  subagents := []

/-! ## Occurrence

To occur once is to be in the input of one Turn, at one place. -/

/-- The message occurs once, in one Turn. -/
def SessionState.OccursOnce (state : SessionState) (m : SessionMessage) : Prop :=
  ∃ b ∈ state.turns, b.input.count m = 1 ∧ ∀ b' ∈ state.turns, m ∈ b'.input → b' = b

theorem occursOnce {state : SessionState} {m : SessionMessage}
    (h : (state.messages.map (·.id)).Nodup) (hm : m ∈ state.messages) : state.OccursOnce m := by
  have hnodup : (state.turns.flatMap (·.input)).Nodup := h.of_map
  obtain ⟨b, hb, hmb⟩ := List.mem_flatMap.mp hm
  rw [List.nodup_flatMap] at hnodup
  refine ⟨b, hb, List.count_eq_one_of_mem (hnodup.1 b hb) hmb, fun b' hb' hmb' ↦ ?_⟩
  by_contra hne
  have : Std.Symm (Function.onFun List.Disjoint fun b : SessionTurnBinding ↦ b.input) :=
    ⟨fun _ _ hd _ h h' ↦ hd h' h⟩
  exact hnodup.2.forall hb' hb hne hmb' hmb

namespace SessionOptions

/-- The worlds in which `create` leaves a Session: without input, or with its initial input. -/
inductive Opening (options : SessionOptions) : SessionWorld → Prop
  | empty (pi : Bool) (session : AgentSession) :
      Opening options ⟨some ⟨1, emptySession pi session⟩, [], [], []⟩
  | input (pi : Bool) (session : AgentSession) (ids : PlanIds) (now : ℕ)
      (input : List InputMessage) (planned : PlannedInput)
      (hturns : FreshIds 1 ids.turnIds []) (hmessages : FreshIds input.length ids.messageIds [])
      (h : planSessionInput ⟨session, []⟩ ids now (emptySession pi session) [.message input] =
        .ok planned) :
      Opening options
        ⟨some ⟨1, options.admitted (emptySession pi session) "initial" [.message input] planned⟩,
          ids.turnIds, ids.messageIds, [⟨"initial", [.message input], planned.accepted⟩]⟩

variable {options : SessionOptions}

theorem recorded_emptySession (pi : Bool) (session : AgentSession) :
    options.Recorded (emptySession pi session) [] :=
  { wellFormed := ⟨List.nodup_nil, Nat.zero_le _, List.nodup_nil⟩
    receipts := rfl
    messages := .refl _
    messageIds := List.nodup_nil
    ordinals := rfl
    contents := fun _ ha ↦ nomatch ha
    writable := ⟨rfl, rfl⟩ }

theorem Opening.inv {w : SessionWorld} (h : options.Opening w) : options.Inv w := by
  cases h with
  | empty pi session =>
    exact ⟨_, rfl, recorded_emptySession pi session,
      ⟨fun _ h ↦ by contradiction, fun _ h ↦ by contradiction⟩⟩
  | input pi session ids now input planned hturns hmessages h =>
    have hinput : inputMessages [.message input] = input := by simp [inputMessages]
    have hempty : options.Recorded (emptySession pi session) [] := recorded_emptySession pi session
    have haccepts : (emptySession pi session).Accepts ids [.message input] planned :=
      planSessionInput_accepts hempty.wellFormed
        (fun _ hb ↦ by contradiction) hturns.1.ge hturns.2.1 (fun _ _ h ↦ by contradiction)
        (by rw [hinput]; exact hmessages.1.ge) h
    refine ⟨_, rfl, hempty.accept rfl haccepts hmessages.2.1
      (fun _ _ h ↦ by contradiction), fun id hid ↦ ?_, fun id hid ↦ ?_⟩
    · exact (haccepts.turnIds id hid).resolve_left (fun h ↦ by contradiction)
    · have hperm := (haccepts.messages.map (·.id)).mem_iff.mp hid
      rw [List.map_append, haccepts.messageIds, List.mem_append] at hperm
      exact List.mem_of_mem_take (hperm.resolve_left fun h ↦ by contradiction)

/-! ## Keys that were used before -/

variable {D : Discipline SessionWorld SessionEffect Call SessionChoice} {p : ℕ × Call}

/-- A call whose key was used before ends with the second look at the document: it succeeds if the
request is the same, and is told of the conflict if it is not. -/
theorem meets_reuse {a : Admission} {idempotencyKey : String} (input : List SessionInput)
    (hkey : a.key = options.receiptKey idempotencyKey) :
    (options.setting D).Meets p (fun w ↦ a ∈ w.log) (options.events idempotencyKey input)
      (fun _ _ ↦ a.events = input) fun e _ ↦ a.events ≠ input ∧ e = .api idempotencyError := by
  have hlog : (options.setting D).Permanent fun w ↦ a ∈ w.log :=
    fun _ _ _ _ _ _ hg h ↦ hg.since.log.subset h
  refine meets_required hlog fun w₀ resource hinv ha hread ↦ ?_
  obtain ⟨hrec, -⟩ := hinv.read hread
  refine meets_local rfl (since_permanent w₀) fun now ↦ ?_
  have hmutable : requireSessionMutable resource.value now = .ok () := by
    simp [requireSessionMutable, hrec.writable]
  obtain ⟨receipt, hreceipt, hdigest⟩ := hrec.admission ha
  rw [hkey] at hreceipt
  simp only [hmutable, hreceipt]
  split
  · next hne =>
    exact meets_raise fun _ _ _ ↦ ⟨fun he ↦ hne (hdigest.trans (congrArg _ he)), rfl⟩
  · next heq =>
    exact meets_ret fun _ _ _ ↦ options.digest_injective (hdigest.symm.trans (not_not.mp heq))

/-! ## The main results

`AdmittedOnce` has a field for each of the promises, about the document of a configuration and the
documents of all later ones. -/

abbrev SessionConfig : Type :=
  Config SessionWorld SessionEffect SessionEffect.Answer ServiceFailure Unit Call

/-- What admission promises in a configuration with this document. -/
structure AdmittedOnce (options : SessionOptions) (c : SessionConfig) (state : SessionState) :
    Prop where
  /-- Receipts are for good: none is removed, and what was filed does not change. -/
  permanent : ∀ c', Leads options.service .free c c' → ∃ resource',
    c'.state.record = some resource' ∧
    ∀ key receipt, state.receipts.get? key = some receipt →
      ∃ receipt', resource'.value.receipts.get? key = some receipt' ∧
        receipt'.digest = receipt.digest ∧ receipt'.commands = receipt.commands
  /-- Each receipt was filed for one admitted request, and no key for two. -/
  filed : (c.state.log.map (·.key)).Nodup ∧
    state.receipts.entries.map (fun e ↦ (e.1, e.2.digest)) =
      c.state.log.map fun a ↦ (a.key, options.digest a.events)
  /-- No step of a call whose key was used writes anything. -/
  unchanged : ∀ pid idempotencyKey input m x c', ∀ a ∈ c.state.log,
    a.key = options.receiptKey idempotencyKey →
    c.procs pid = some (.events idempotencyKey input, m) →
    options.service.step c (.resume pid x) = some c' →
      c'.state.record = c.state.record ∧ c'.state.log = c.state.log
  /-- A call that begins with a used key succeeds if the request is the same, and only then;
  otherwise it is told of the conflict. -/
  reused : ∀ pid idempotencyKey input, ∀ a ∈ c.state.log,
    a.key = options.receiptKey idempotencyKey →
    c.procs pid = some (.events idempotencyKey input, options.events idempotencyKey input) →
    ∀ c' m, Leads options.service .free c c' →
      c'.procs pid = some (.events idempotencyKey input, m) →
      (m = .ret () → a.events = input) ∧
      ∀ e, m = .raise e → a.events ≠ input ∧ e = .api idempotencyError
  /-- No call has two results. -/
  answered : (state.results.map fun r ↦ (r.1, r.2.1)).Nodup
  /-- What an acknowledged call sent is in the document, each message once. -/
  acknowledged : ∀ pid idempotencyKey input,
    c.procs pid = some (.events idempotencyKey input, .ret ()) →
    ∃ a ∈ c.state.log, a.key = options.receiptKey idempotencyKey ∧ a.events = input ∧
      (acceptedMessages a.accepted).map (·.message) = inputMessages input ∧
      ∀ m ∈ acceptedMessages a.accepted, state.OccursOnce m

section

variable {start : SessionWorld} {c : SessionConfig}

/-- Input is admitted exactly once, in every state of every run. -/
theorem input_admitted_once (hstart : options.Opening start)
    (hc : Reachable options.service .free start c) :
    ∃ resource, c.state.record = some resource ∧ options.AdmittedOnce c resource.value := by
  have hV : (options.setting .free).Verified start _ _ := verified hstart.inv
  have hsound := hV.reachable hc
  obtain ⟨resource, hread, hrec, -⟩ := hsound.inv
  refine ⟨resource, hread, ⟨fun c' h ↦ ?_, ⟨hrec.keys, ?_⟩,
    fun pid idempotencyKey input m x c' a ha hkey hproc hstep ↦ ?_,
    fun pid idempotencyKey input a ha hkey hproc c' m h hproc' ↦ ?_, ?_,
    fun pid idempotencyKey input hproc ↦ ?_⟩⟩
  · have hsince : c.state.Since c'.state := hV.future SessionWorld.Since .refl .trans
      (fun _ _ _ _ hg ↦ hg.since) hsound h
    obtain ⟨resource', hread', hext⟩ := hsince.document resource hread
    refine ⟨resource', hread', fun key receipt hr ↦ ?_⟩
    obtain ⟨receipt', hr', hf⟩ := hext.receipts key receipt hr
    exact ⟨receipt', hr', hf.digest, hf.commands⟩
  · have := congrArg (List.map fun e ↦ (e.1, e.2.1)) hrec.receipts
    simpa [SessionState.filed, Function.comp_def] using this
  · -- A call of a key that is admitted sends no input of its own.
    obtain ⟨call, e, k, answer, hproc', -, -⟩ := step_resume_eq_some hstep
    rw [hproc] at hproc'
    cases hproc'
    obtain ⟨-, hg⟩ := hV.resume hsound hproc (permits_free c _) hstep
    obtain ⟨receipt, hreceipt, -⟩ := hrec.admission ha
    exact hg.events _ _ rfl resource receipt hread (hkey ▸ hreceipt)
  · -- A key with other content is followed from its start, where the receipt is there already.
    have hsafe : (options.setting .free).Safe (pid, .events idempotencyKey input)
        (fun _ _ ↦ a.events = input) (fun e _ ↦ a.events ≠ input ∧ e = .api idempotencyError)
        (options.events idempotencyKey input) c.state := meets_reuse input hkey _ hsound.inv ha
    obtain ⟨m', hm', hsafe'⟩ := hV.follow (fun _ _ _ _ _ _ _ _ _ h ↦ h)
      (fun _ _ _ _ _ _ _ _ _ h ↦ h) hsound hproc hsafe h
    rw [hproc'] at hm'
    cases hm'
    refine ⟨?_, ?_⟩
    · rintro rfl
      exact hsafe'
    · rintro e rfl
      exact hsafe'
  · refine List.Nodup.of_map (fun r ↦ callKey r.1 r.2) ?_
    rw [List.map_map]
    exact hrec.wellFormed.calls
  · -- A call that has returned has been admitted, and its messages are among those accepted.
    obtain ⟨a, ha, hkey, rfl⟩ : options.Admitted idempotencyKey input c.state :=
      hsound.safe pid _ _ hproc
    refine ⟨a, ha, hkey, rfl, hrec.contents a ha, fun m hm ↦ occursOnce hrec.messageIds ?_⟩
    rw [hrec.messages.mem_iff, acceptedInput, acceptedMessages, List.filterMap_flatMap]
    exact List.mem_flatMap.mpr ⟨a, ha, hm⟩

/-- One Turn at a time takes input, and ordinals record the order of acceptance: those of the
accepted input count up from zero, and the document holds the accepted input and nothing else. -/
theorem turns_take_input_in_order (hstart : options.Opening start)
    (hc : Reachable options.service .free start c) :
    ∃ resource, c.state.record = some resource ∧
      activeCount resource.value.turns ≤ 1 ∧
      (resource.value.turns.map (·.turn.id)).Nodup ∧
      (resource.value.messages.map (·.id)).Nodup ∧
      (resource.value.messages.map (·.acceptedOrdinal) ++
        resource.value.results.map (·.2.2)).Nodup ∧
      resource.value.messages.Perm (acceptedMessages (acceptedInput c.state.log)) ∧
      resource.value.results = acceptedResults (acceptedInput c.state.log) ∧
      ((acceptedInput c.state.log).map (·.ordinal)).Pairwise (· < ·) := by
  have hV : (options.setting .free).Verified start _ _ := verified hstart.inv
  obtain ⟨resource, hread, hrec, -⟩ := (hV.reachable hc).inv
  refine ⟨resource, hread, hrec.wellFormed.active, hrec.wellFormed.distinct, hrec.messageIds, ?_,
    hrec.messages, hrec.results, ?_⟩
  · -- The ordinals of the document are those of the log, which are handed out one by one.
    have hperm : (resource.value.messages.map (·.acceptedOrdinal) ++
        resource.value.results.map (·.2.2)).Perm ((acceptedInput c.state.log).map (·.ordinal)) := by
      rw [hrec.results]
      exact ((hrec.messages.map _).append_right _).trans (ordinals_perm _)
    rw [hperm.nodup_iff, hrec.ordinals]
    exact List.nodup_range
  · rw [hrec.ordinals]
    exact List.pairwise_lt_range

end

end SessionOptions

/-! ## A run

A request is accepted by a Session that had none. -/

instance : Code InputMessage :=
  .ofInjective (fun m ↦ (m.role, m.content)) fun a b h ↦ by
    cases a
    cases b
    simpa using h

instance : Code ToolResultInput :=
  .ofInjective (fun r ↦ (r.turnId, r.callId, r.success, r.output, r.error)) fun a b h ↦ by
    cases a
    cases b
    simpa using h

instance : Code SessionInput :=
  .ofInjective (fun
    | .message input => Sum.inl input
    | .cancel => Sum.inr (Sum.inl ())
    | .toolResult event => Sum.inr (Sum.inr event)) fun a b h ↦ by
    cases a <;> cases b <;> simp_all

def sampleSessionOptions : SessionOptions where
  receiptKey key := "receipt:" ++ key
  receiptKey_injective _ _ h := by simpa using h
  digest := digest
  digest_injective := digest_injective
  rejects _ _ := none
  rejectsAgent _ _ := none
  reasoningDefault _ := none

def sampleSession : SessionWorld :=
  let session : AgentSession := ⟨⟨"model", none, "auto"⟩, .idle, [], 0, none, none⟩
  ⟨some ⟨1, emptySession true session⟩, [], [], []⟩

def sampleInput : List SessionInput := [.message [⟨"user", ["hello"]⟩]]

/-- One call of `events` from beginning to end. -/
def sampleAdmission : List (Event SessionOptions.Call SessionChoice) :=
  [.start 0 (.events "key" sampleInput), .resume 0 {}, .resume 0 {}, .resume 0 {}, .resume 0 {},
    .resume 0 {}, .resume 0 { turnIds := ["turn"], messageIds := ["message"] }, .resume 0 {},
    .resume 0 {}, .resume 0 {}]

/-- The call was acknowledged, so its message is in the document once. -/
theorem sampleAdmission_once :
    ∃ c, sampleSessionOptions.service.run .free sampleAdmission (.initial sampleSession) = some c ∧
      ∃ resource, c.state.record = some resource ∧
        ∃ a ∈ c.state.log, (acceptedMessages a.accepted).map (·.message) = [⟨"user", ["hello"]⟩] ∧
          ∀ m ∈ acceptedMessages a.accepted, resource.value.OccursOnce m := by
  have hrun : (sampleSessionOptions.service.run .free sampleAdmission
      (.initial sampleSession)).map (fun c ↦ (c.procs 0).map fun p ↦ (p.1, p.2.result?)) =
      some (some (.events "key" sampleInput, some (.ok ()))) := by decide
  obtain ⟨c, hc, hproc⟩ := Option.map_eq_some_iff.mp hrun
  obtain ⟨⟨call, m⟩, hp, hfields⟩ := Option.map_eq_some_iff.mp hproc
  obtain ⟨hcall, hm⟩ := Prod.mk.inj hfields
  rw [show (call, m) = (.events "key" sampleInput, .ret ()) from
    Prod.ext hcall (Prog.eq_ret_of_result? hm)] at hp
  obtain ⟨resource, hread, honce⟩ := SessionOptions.input_admitted_once (.empty ..)
    (Service.leads_of_run hc)
  obtain ⟨a, ha, -, -, hcontents, hmessages⟩ := honce.acknowledged 0 "key" sampleInput hp
  exact ⟨c, hc, resource, hread, a, ha, hcontents, hmessages⟩

/-- In that run as in any other, the ordinals are those of the order of acceptance. -/
theorem sampleAdmission_ordered :
    ∃ c, sampleSessionOptions.service.run .free sampleAdmission (.initial sampleSession) = some c ∧
      ((acceptedInput c.state.log).map (·.ordinal)).Pairwise (· < ·) := by
  have hrun : (sampleSessionOptions.service.run .free sampleAdmission
      (.initial sampleSession)).isSome := by decide
  obtain ⟨c, hc⟩ := Option.isSome_iff_exists.mp hrun
  obtain ⟨resource, -, -, -, -, -, -, -, hordered⟩ :=
    SessionOptions.turns_take_input_in_order (.empty ..) (Service.leads_of_run hc)
  exact ⟨c, hc, hordered⟩

end RatThings
