import Mathlib.Data.List.Basic
import RatThings.Library.RelyGuarantee
import RatThings.Runner.PiCommands

/-!
# Commands that are replayed

An engine that takes over the documents of a native Session replays the accepted commands from the
first. This module proves that nothing is done twice by it: in every run of engines that stop where
they like and lose acknowledgements, among the native tasks.

## The invariant

Every command leaves a record in the commit that carries it out: a start its Turn link, a steer and
a cancel their receipt, a tool result itself. So `Once` follows from `Recorded`, which says that
what a command has made has such a record, and a commit that finds the record makes nothing. A
record is only ever followed by more of the same (`Keeps`), so an engine that meets a command again
finds that it was carried out, whatever the native tasks did meanwhile.

## Cancels

A cancel goes over several commits: each takes one thing away, and the abort of a task comes after
the commit that asks for it. While its receipt is there and not over, the cancel goes on where it
was left. Between a commit and the abort after it nothing but its own engine touches the receipt,
as only the engine that has the storage open is heard (`Guarded`).
-/

namespace RatThings

open Concurrent Service Setting

/-! ## What is promised

The traces of the commands are ghost state: they count what was done, and `Once` says that nothing
occurs in them twice. -/

namespace PiDocuments

/-- The conversations of the submissions that a start has created. -/
def submitted (w : PiDocuments) (turnId : String) : List ℕ :=
  w.submissions.filterMap fun s ↦
    if s.requestId = .turn turnId then some s.conversationId else none

/-- The inbox items that a steer operation has added. -/
def pushed (w : PiDocuments) (operationId : String) : List ℕ :=
  w.effects.filterMap fun
    | .pushed operationId' item => if operationId' = operationId then some item else none
    | _ => none

/-- What a cancel has done to tasks and inboxes. -/
def cancelled (w : PiDocuments) (turnId : String) : List CommandTrace :=
  w.effects.filter fun
    | .removed turnId' _ => turnId' = turnId
    | .aborted turnId' _ => turnId' = turnId
    | .pushed .. => false

/-- The documents record that the command of a request was carried out. -/
def Applied : PiRequest → PiDocuments → Prop
  | .start command, w => (w.turns.get? command.turnId).isSome
  | .steer _ _ _ operationId, w => (w.operations.get? (.steer operationId)).isSome
  | .cancel turnId, w => ∃ command, w.operations.get? (.cancel turnId) = some command ∧
      command.finished
  | .toolResult callId _, w => ∃ call, w.calls.get? callId = some call ∧ call.result.isSome
  | _, _ => False

/-- Nothing was done twice. -/
structure Once (w : PiDocuments) : Prop where
  submitted : ∀ turnId, (w.submitted turnId).length ≤ 1
  pushed : ∀ operationId, (w.pushed operationId).length ≤ 1
  /-- A steer operation that came too late adds nothing. -/
  stale : ∀ operationId command, w.operations.get? (.steer operationId) = some command →
    command.status = .stale → w.pushed operationId = []

/-- What was recorded once is kept. -/
structure Keeps (w w' : PiDocuments) : Prop where
  turns : ∀ turnId, (w.turns.get? turnId).isSome → (w'.turns.get? turnId).isSome
  steers : ∀ operationId command, w.operations.get? (.steer operationId) = some command →
    w'.operations.get? (.steer operationId) = some command
  /-- A cancel that is over stays so, and does nothing any more. -/
  cancels : ∀ turnId command, w.operations.get? (.cancel turnId) = some command →
    command.finished → w'.operations.get? (.cancel turnId) = some command ∧
      w'.cancelled turnId = w.cancelled turnId
  /-- A function call keeps its first result. -/
  results : ∀ callId call result, w.calls.get? callId = some call → call.result = some result →
    ∃ call', w'.calls.get? callId = some call' ∧ call'.result = some result

/-! ## The invariant -/

/-- Every submission of a start is one of the root, and the item of a steer operation has its
receipt. -/
structure Recorded (w : PiDocuments) : Prop where
  submitted : ∀ turnId, w.submitted turnId = [] ∨ w.submitted turnId = [w.rootId]
  pushed : ∀ operationId, w.pushed operationId = [] ∨ ∃ item command,
    w.pushed operationId = [item] ∧ w.operations.get? (.steer operationId) = some command ∧
      command.status = .accepted

theorem Recorded.once {w : PiDocuments} (h : w.Recorded) : w.Once where
  submitted turnId := by
    rcases h.submitted turnId with hs | hs <;> rw [hs]
    · exact Nat.zero_le 1
    · exact Nat.le_refl 1
  pushed operationId := by
    rcases h.pushed operationId with hs | ⟨item, command, hs, -, -⟩ <;> rw [hs]
    · exact Nat.zero_le 1
    · exact Nat.le_refl 1
  stale operationId command hread hstale := by
    rcases h.pushed operationId with hs | ⟨item, command', -, hread', haccepted⟩
    · exact hs
    · rw [hread] at hread'
      cases hread'
      rw [hstale] at haccepted
      cases haccepted

theorem recorded_empty : ({} : PiDocuments).Recorded :=
  ⟨fun _ ↦ .inl rfl, fun _ ↦ .inl rfl⟩

/-- What one step may do. -/
structure Advances (w w' : PiDocuments) : Prop extends Keeps w w' where
  rootId : w'.rootId = w.rootId
  engine : w'.engine = w.engine
  submitted : ∀ turnId, w'.submitted turnId = w.submitted turnId ∨
    w.submitted turnId = [] ∧ w'.submitted turnId = [w.rootId]
  pushed : ∀ operationId, w'.pushed operationId = w.pushed operationId ∨
    w.operations.get? (.steer operationId) = none ∧ ∃ item command,
      w'.pushed operationId = w.pushed operationId ++ [item] ∧
      w'.operations.get? (.steer operationId) = some command ∧ command.status = .accepted

theorem Keeps.refl (w : PiDocuments) : w.Keeps w where
  turns _ h := h
  steers _ _ h := h
  cancels _ _ h _ := ⟨h, rfl⟩
  results _ call _ h hr := ⟨call, h, hr⟩

theorem Keeps.trans {w w' w'' : PiDocuments} (h : w.Keeps w') (h' : w'.Keeps w'') :
    w.Keeps w'' where
  turns turnId hs := h'.turns turnId (h.turns turnId hs)
  steers operationId command hs := h'.steers _ _ (h.steers operationId command hs)
  cancels turnId command hread hfinished := by
    obtain ⟨hread', hsame⟩ := h.cancels turnId command hread hfinished
    obtain ⟨hread'', hsame'⟩ := h'.cancels turnId command hread' hfinished
    exact ⟨hread'', hsame'.trans hsame⟩
  results callId call result hread hresult := by
    obtain ⟨call', hread', hresult'⟩ := h.results callId call result hread hresult
    exact h'.results callId call' result hread' hresult'

theorem Advances.refl (w : PiDocuments) : w.Advances w where
  toKeeps := .refl w
  rootId := rfl
  engine := rfl
  submitted _ := .inl rfl
  pushed _ := .inl rfl

theorem Recorded.advances {w w' : PiDocuments} (h : w.Recorded) (ha : w.Advances w') :
    w'.Recorded where
  submitted turnId := by
    rcases ha.submitted turnId with hs | ⟨-, hs⟩
    · rw [hs, ha.rootId]
      exact h.submitted turnId
    · rw [hs, ha.rootId]
      exact .inr rfl
  pushed operationId := by
    rcases ha.pushed operationId with hs | ⟨hnone, item, command, hs, hread, haccepted⟩
    · rw [hs]
      rcases h.pushed operationId with hnil | ⟨item, command, hone, hread, haccepted⟩
      · exact .inl hnil
      · exact .inr ⟨item, command, hone, ha.steers _ _ hread, haccepted⟩
    · have hnil : w.pushed operationId = [] := by
        refine (h.pushed operationId).resolve_right ?_
        rintro ⟨item', command', -, hsome, -⟩
        rw [hnone] at hsome
        cases hsome
      rw [hnil] at hs
      exact .inr ⟨item, command, hs, hread, haccepted⟩

/-! ## Submissions and runs

The native Session starts and ends runs, and takes in inputs. All of this leaves the records of the
commands alone. -/

section

variable {w w' : PiDocuments}

theorem submitted_append {submission : PiSubmission}
    (h : w'.submissions = w.submissions ++ [submission]) (turnId : String) :
    w'.submitted turnId = w.submitted turnId ++
      if submission.requestId = .turn turnId then [submission.conversationId] else [] := by
  rw [submitted, submitted, h, List.filterMap_append]
  by_cases hrequest : submission.requestId = .turn turnId
  · simp [hrequest]
  · simp [hrequest]

theorem submitted_map {f : PiSubmission → PiSubmission}
    (h : w'.submissions = w.submissions.map f)
    (hrequest : ∀ s, (f s).requestId = s.requestId)
    (hconversation : ∀ s, (f s).conversationId = s.conversationId) (turnId : String) :
    w'.submitted turnId = w.submitted turnId := by
  rw [submitted, submitted, h, List.filterMap_map]
  congr 1
  funext s
  simp only [Function.comp_apply, hrequest, hconversation]

/-- What the tools and the native Session do: they leave the receipts of steers and cancels. -/
structure Aside (w w' : PiDocuments) : Prop where
  rootId : w'.rootId = w.rootId
  engine : w'.engine = w.engine
  effects : w'.effects = w.effects
  turns : ∀ turnId, (w.turns.get? turnId).isSome → (w'.turns.get? turnId).isSome
  steers : ∀ operationId,
    w'.operations.get? (.steer operationId) = w.operations.get? (.steer operationId)
  cancels : ∀ turnId, w'.operations.get? (.cancel turnId) = w.operations.get? (.cancel turnId)
  results : ∀ callId call result, w.calls.get? callId = some call → call.result = some result →
    ∃ call', w'.calls.get? callId = some call' ∧ call'.result = some result
  submitted : ∀ turnId, w'.submitted turnId = w.submitted turnId ∨
    w.submitted turnId = [] ∧ w'.submitted turnId = [w.rootId]

theorem Aside.advances (h : w.Aside w') : w.Advances w' where
  turns := h.turns
  steers operationId command hread := (h.steers operationId).trans hread
  cancels turnId command hread _ :=
    ⟨(h.cancels turnId).trans hread, by rw [cancelled, cancelled, h.effects]⟩
  results := h.results
  rootId := h.rootId
  engine := h.engine
  submitted := h.submitted
  pushed operationId := .inl (by rw [pushed, pushed, h.effects])

theorem Aside.refl (w : PiDocuments) : w.Aside w :=
  ⟨rfl, rfl, rfl, fun _ h ↦ h, fun _ ↦ rfl, fun _ ↦ rfl, fun _ call _ h hr ↦ ⟨call, h, hr⟩,
    fun _ ↦ .inl rfl⟩

/-- A new link is one more. -/
theorem turns_set {turnId : String} {link : PiTurnLink} (h : w'.turns = w.turns.set turnId link)
    (turnId' : String) (hsome : (w.turns.get? turnId').isSome) :
    (w'.turns.get? turnId').isSome := by
  rw [h]
  by_cases hsame : turnId' = turnId
  · rw [hsame, OrderedMap.get?_set_self]
    rfl
  · rwa [OrderedMap.get?_set_of_ne _ hsame]

/-- What is admitted is one submission, under a request that had none. -/
theorem admit_cases {conversationId id : ℕ} {requestId : PiRequestId} {content : PiContent}
    {whenBusy : WhenBusy} {fresh : Bool}
    (h : w.admitPiInput conversationId requestId content whenBusy fresh = .ok (id, w')) :
    w' = w ∨ ((fresh = true ∨ w.submissionByRequest conversationId requestId = none) ∧
      ∃ submission live inbox next, submission.requestId = requestId ∧
        submission.conversationId = conversationId ∧
        w' = { w with
          submissions := w.submissions ++ [submission]
          live := live
          inbox := inbox
          next := next }) := by
  unfold admitPiInput at h
  split at h
  · cases h
    exact .inl rfl
  next hread =>
  right
  refine ⟨?_, ?_⟩
  · split at hread
    · next hfresh => exact .inl hfresh
    · exact .inr hread
  split at h
  · -- A conversation that is busy queues the input, where it is allowed to.
    cases whenBusy with
    | reject => cases h
    | followUp =>
      cases h
      exact ⟨_, _, _, _, rfl, rfl, rfl⟩
  · cases h
    exact ⟨_, _, _, _, rfl, rfl, rfl⟩

/-- A request that is found nowhere has no submission in the conversation. -/
theorem submitted_of_submissionByRequest (hw : w.Recorded) {turnId : String}
    (h : w.submissionByRequest w.rootId (.turn turnId) = none) : w.submitted turnId = [] := by
  rcases hw.submitted turnId with hnil | hone
  · exact hnil
  have hmem : w.rootId ∈ w.submitted turnId := hone ▸ List.mem_singleton_self _
  obtain ⟨s, hs, hroot⟩ := List.mem_filterMap.mp hmem
  split at hroot
  · next hrequest =>
    have hfound := List.find?_eq_none.mp h s hs
    simp [hrequest, Option.some.inj hroot] at hfound
  · cases hroot

/-- An input under a request that is no Turn's. -/
theorem submitted_of_admitted {conversationId id : ℕ} {requestId : PiRequestId}
    {content : PiContent}
    {whenBusy : WhenBusy} {fresh : Bool}
    (h : w.admitPiInput conversationId requestId content whenBusy fresh = .ok (id, w'))
    {turnId : String} (hrequest : requestId ≠ .turn turnId) :
    w'.submitted turnId = w.submitted turnId := by
  rcases admit_cases h with rfl | ⟨-, submission, live, inbox, next, hid, -, rfl⟩
  · rfl
  · rw [submitted_append rfl, if_neg (hid ▸ hrequest), List.append_nil]

/-! ## The commits of an engine

One lemma for each commit, with the two cases in which the command was recorded before and was
not. -/

theorem advances_start (hw : w.Recorded) {launch : PiLaunch} {command : StartCommand}
    (h : w.start launch command = .ok ((), w')) :
    w.Advances w' ∧ (w'.turns.get? command.turnId).isSome := by
  rw [start] at h
  split at h
  · next link hread =>
    cases h
    exact ⟨.refl w, hread ▸ rfl⟩
  · simp only [bind, Except.bind] at h
    split at h
    · cases h
    split at h
    · cases h
    next content _ =>
    split at h
    · cases h
    split at h
    · cases h
    next admitted hadmit =>
    obtain ⟨id, w₁⟩ := admitted
    cases h
    refine ⟨Aside.advances ?_, ?_⟩
    · rcases admit_cases hadmit with rfl | ⟨hnew, submission, live, inbox, next, hid, hconv, rfl⟩
      · exact ⟨rfl, rfl, rfl, turns_set rfl, fun _ ↦ rfl, fun _ ↦ rfl,
          fun _ call _ hc hr ↦ ⟨call, hc, hr⟩, fun _ ↦ .inl rfl⟩
      · refine ⟨rfl, rfl, rfl, turns_set rfl, fun _ ↦ rfl, fun _ ↦ rfl,
          fun _ call _ hc hr ↦ ⟨call, hc, hr⟩, fun turnId ↦ ?_⟩
        rw [submitted_append (w := w) rfl]
        by_cases hsame : command.turnId = turnId
        · -- The request is the start's own, and the conversation has no submission under it.
          right
          subst hsame
          have hnil : w.submitted command.turnId = [] :=
            submitted_of_submissionByRequest hw (hnew.resolve_left Bool.false_ne_true)
          rw [if_pos hid, hnil, hconv]
          exact ⟨rfl, rfl⟩
        · left
          have hother : submission.requestId ≠ .turn turnId := by
            rw [hid]
            intro heq
            exact hsame (PiRequestId.turn.inj heq)
          rw [if_neg hother, List.append_nil]
    · dsimp only
      rw [OrderedMap.get?_set_self]
      rfl

theorem planSteerReceipt_new {previous : Option PiCommand} {fingerprint : PiFingerprint}
    (h : planSteerReceipt previous fingerprint = .ok .new) : previous = none := by
  cases previous with
  | none => rfl
  | some previous =>
    rw [planSteerReceipt] at h
    split at h <;> cases h

/-- A receipt that is new changes no other. -/
theorem operations_set {key key' : PiCommandKey} {command : PiCommand}
    (h : w'.operations = w.operations.set key command) (hne : key' ≠ key) :
    w'.operations.get? key' = w.operations.get? key' := by
  rw [h, OrderedMap.get?_set_of_ne _ hne]

/-- A steer operation without a receipt gets one, and adds an item only if that is accepted. -/
theorem advances_of_receipt {operationId : String} {command : PiCommand}
    {traces : List CommandTrace}
    (hnone : w.operations.get? (.steer operationId) = none)
    (hoperations : w'.operations = w.operations.set (.steer operationId) command)
    (heffects : w'.effects = w.effects ++ traces)
    (htraces : traces = [] ∨
      ∃ item, traces = [.pushed operationId item] ∧ command.status = .accepted)
    (hroot : w'.rootId = w.rootId) (hengine : w'.engine = w.engine) (hcalls : w'.calls = w.calls)
    (hturns : ∀ turnId, (w.turns.get? turnId).isSome → (w'.turns.get? turnId).isSome)
    (hsubmitted : ∀ turnId, w'.submitted turnId = w.submitted turnId) : w.Advances w' := by
  have hcancels : ∀ turnId,
      w'.operations.get? (.cancel turnId) = w.operations.get? (.cancel turnId) :=
    fun turnId ↦ operations_set hoperations nofun
  refine ⟨⟨hturns, fun operationId' command' hread ↦ ?_, fun turnId command' hread _ ↦ ?_,
    fun callId call result hread hresult ↦ ⟨call, hcalls ▸ hread, hresult⟩⟩, hroot, hengine,
    fun turnId ↦ .inl (hsubmitted turnId), fun operationId' ↦ ?_⟩
  · have hne : operationId' ≠ operationId := by
      rintro rfl
      rw [hnone] at hread
      cases hread
    rw [operations_set hoperations fun heq ↦ hne (PiCommandKey.steer.inj heq), hread]
  · refine ⟨(hcancels turnId).trans hread, ?_⟩
    rw [cancelled, cancelled, heffects, List.filter_append]
    rcases htraces with rfl | ⟨item, rfl, -⟩ <;> exact List.append_nil _
  · rw [pushed, pushed, heffects, List.filterMap_append]
    rcases htraces with rfl | ⟨item, rfl, haccepted⟩
    · exact .inl (List.append_nil _)
    · by_cases hsame : operationId' = operationId
      · subst hsame
        refine .inr ⟨hnone, item, command, by simp, ?_, haccepted⟩
        rw [hoperations, OrderedMap.get?_set_self]
      · left
        simp [Ne.symm hsame]

theorem advances_steer {launch : PiLaunch} {turnId operationId : String} {input : PiInput}
    {content : PiContent} (h : w.steer launch turnId input content operationId = .ok ((), w')) :
    w.Advances w' ∧ (w'.operations.get? (.steer operationId)).isSome := by
  simp only [steer, bind, Except.bind] at h
  split at h
  · cases h
  next receipt hreceipt =>
  cases receipt with
  | replayed =>
    cases h
    refine ⟨.refl w, ?_⟩
    cases hread : w.operations.get? (.steer operationId) with
    | none =>
      rw [hread] at hreceipt
      cases hreceipt
    | some command => rfl
  | new =>
    have hnone := planSteerReceipt_new hreceipt
    simp only at h
    split at h
    · cases h
    next link _ =>
    split at h
    · cases h
    split at h
    · cases h
      refine ⟨advances_of_receipt hnone rfl (List.append_nil _).symm (.inl rfl) rfl rfl rfl
        (fun _ hsome ↦ hsome) fun _ ↦ rfl, ?_⟩
      dsimp only
      rw [OrderedMap.get?_set_self]
      rfl
    · next command htarget =>
      have haccepted : command.status = .accepted := by
        unfold planSteerTarget at htarget
        split at htarget
        · split at htarget <;> cases htarget
          rfl
        · cases htarget
      cases h
      refine ⟨advances_of_receipt hnone rfl rfl (.inr ⟨_, rfl, haccepted⟩) rfl rfl rfl
        (turns_set rfl)
        fun turnId' ↦ ?_, ?_⟩
      · rw [submitted_append (w := w) rfl, if_neg (fun h ↦ by contradiction), List.append_nil]
      · dsimp only
        rw [OrderedMap.get?_set_self]
        rfl

/-- The traces of a cancel add nothing to what steer operations have pushed. -/
theorem pushed_of_cancel {turnId : String} {traces : List CommandTrace}
    (heffects : w'.effects = w.effects ++ traces)
    (htraces : ∀ trace ∈ traces, (∃ item, trace = .removed turnId item) ∨
      ∃ taskId, trace = .aborted turnId taskId) (operationId : String) :
    w'.pushed operationId = w.pushed operationId := by
  have hnil : traces.filterMap (fun
      | .pushed operationId' item => if operationId' = operationId then some item else none
      | _ => none) = [] := by
    refine List.filterMap_eq_nil_iff.mpr fun trace hmem ↦ ?_
    rcases htraces trace hmem with ⟨item, rfl⟩ | ⟨taskId, rfl⟩ <;> rfl
  rw [pushed, pushed, heffects, List.filterMap_append, hnil, List.append_nil]

/-- Nor to what other cancels have done. -/
theorem cancelled_of_cancel {turnId turnId' : String} {traces : List CommandTrace}
    (heffects : w'.effects = w.effects ++ traces)
    (htraces : ∀ trace ∈ traces, (∃ item, trace = .removed turnId item) ∨
      ∃ taskId, trace = .aborted turnId taskId) (hne : turnId' ≠ turnId) :
    w'.cancelled turnId' = w.cancelled turnId' := by
  have hnil : traces.filter (fun
      | .removed turnId'' _ => decide (turnId'' = turnId')
      | .aborted turnId'' _ => decide (turnId'' = turnId')
      | .pushed .. => false) = [] := by
    refine List.filter_eq_nil_iff.mpr fun trace hmem ↦ ?_
    rcases htraces trace hmem with ⟨item, rfl⟩ | ⟨taskId, rfl⟩ <;> simpa using Ne.symm hne
  rw [cancelled, cancelled, heffects, List.filter_append, hnil, List.append_nil]

/-- A step of a cancel that is not over. -/
theorem advances_of_cancel {turnId : String} {traces : List CommandTrace}
    (hpending : ∀ command, w.operations.get? (.cancel turnId) = some command →
      command.finished = false)
    (hoperations : ∀ key, key ≠ .cancel turnId → w'.operations.get? key = w.operations.get? key)
    (heffects : w'.effects = w.effects ++ traces)
    (htraces : ∀ trace ∈ traces, (∃ item, trace = .removed turnId item) ∨
      ∃ taskId, trace = .aborted turnId taskId)
    (hroot : w'.rootId = w.rootId) (hengine : w'.engine = w.engine) (hcalls : w'.calls = w.calls)
    (hturns : w'.turns = w.turns)
    (hsubmitted : ∀ turnId', w'.submitted turnId' = w.submitted turnId') : w.Advances w' := by
  refine ⟨⟨fun turnId' hsome ↦ hturns ▸ hsome, fun operationId command hread ↦ ?_,
    fun turnId' command hread hfinished ↦ ?_,
    fun callId call result hread hresult ↦ ⟨call, hcalls ▸ hread, hresult⟩⟩, hroot, hengine,
    fun turnId' ↦ .inl (hsubmitted turnId'), fun operationId ↦ .inl ?_⟩
  · exact (hoperations (.steer operationId) nofun).trans hread
  · have hne : turnId' ≠ turnId := by
      rintro rfl
      rw [hpending command hread] at hfinished
      cases hfinished
    refine ⟨?_, cancelled_of_cancel heffects htraces hne⟩
    rw [hoperations _ fun heq ↦ hne (PiCommandKey.cancel.inj heq), hread]
  · exact pushed_of_cancel heffects htraces operationId

theorem advances_cancel {turnId : String} {target : Option (ℕ × ℕ)}
    (h : w.cancel turnId = .ok (target, w')) :
    w.Advances w' ∧
      (target.isSome → ∃ command, w'.operations.get? (.cancel turnId) = some command ∧
        command.status = .accepted) ∧
      (target = none → Applied (.cancel turnId) w') := by
  unfold cancel at h
  split at h
  · cases h
  next link _ =>
  dsimp only at h
  split at h
  · next hreceipt =>
    cases h
    refine ⟨.refl w, (fun h ↦ by contradiction), fun _ ↦ ?_⟩
    unfold planCancelReceipt at hreceipt
    split at hreceipt
    · next command hread =>
      split at hreceipt
      · next hfinished => exact ⟨command, hread, hfinished⟩
      · cases hreceipt
    · cases hreceipt
  · next hreceipt =>
    cases h
    -- A command that is finished would have been the receipt.
    have hpending : ∀ command, w.operations.get? (.cancel turnId) = some command →
        command.finished = false := by
      intro command hread
      rw [hread, planCancelReceipt] at hreceipt
      split at hreceipt
      · cases hreceipt
      · next hfinished => exact Bool.not_eq_true _ ▸ hfinished
    refine ⟨advances_of_cancel hpending (fun key hne ↦ ?_) rfl (fun trace hmem ↦ ?_) rfl rfl rfl rfl
      fun turnId' ↦ ?_, fun hsome ↦ ?_, fun hnone ↦ ?_⟩
    · exact OrderedMap.get?_set_of_ne _ hne _
    · obtain ⟨item, -, rfl⟩ := List.mem_map.mp hmem
      exact .inl ⟨item, rfl⟩
    · refine submitted_map rfl (fun s ↦ ?_) (fun s ↦ ?_) turnId'
      · split <;> rfl
      · split <;> rfl
    · refine ⟨_, OrderedMap.get?_set_self _ _ _, ?_⟩
      rw [Option.isSome_map] at hsome
      obtain ⟨taskId, htarget⟩ := Option.isSome_iff_exists.mp hsome
      simp only [planPiCancel] at htarget ⊢
      rw [htarget]
    · refine ⟨_, OrderedMap.get?_set_self _ _ _, ?_⟩
      rw [Option.map_eq_none_iff] at hnone
      simp only [planPiCancel] at hnone ⊢
      rw [hnone]
      dsimp only [PiCommand.finished]
      split <;> rfl

theorem advances_toolResult {callId : String} {result : PiFunctionResult}
    (h : w.resolvePiFunction callId result = .ok ((), w')) :
    w.Advances w' ∧ Applied (.toolResult callId result) w' := by
  unfold resolvePiFunction at h
  split at h
  · cases h
  next call hread =>
  split at h
  · next previous hprevious =>
    split at h <;> cases h
    exact ⟨.refl w, call, hread, hprevious ▸ rfl⟩
  · next hnone =>
    cases h
    refine ⟨Aside.advances ⟨rfl, rfl, rfl, fun _ hs ↦ hs, fun _ ↦ rfl, fun _ ↦ rfl,
      fun callId' call' result' hread' hresult' ↦ ⟨call', ?_, hresult'⟩, fun _ ↦ .inl rfl⟩,
      _, OrderedMap.get?_set_self _ _ _, rfl⟩
    have hne : callId' ≠ callId := by
      rintro rfl
      rw [hread] at hread'
      cases hread'
      rw [hnone] at hresult'
      cases hresult'
    exact (OrderedMap.get?_set_of_ne _ hne _).trans hread'

theorem advances_abort {turnId : String} {taskId : ℕ} {command : PiCommand}
    (hread : w.operations.get? (.cancel turnId) = some command)
    (haccepted : command.status = .accepted) :
    w.Advances { w with effects := w.effects ++ [.aborted turnId taskId] } := by
  have hpending : ∀ command, w.operations.get? (.cancel turnId) = some command →
      command.finished = false := by
    intro command' hread'
    rw [hread] at hread'
    cases hread'
    simp [PiCommand.finished, haccepted]
  refine advances_of_cancel hpending (fun _ _ ↦ rfl) rfl (fun trace hmem ↦ ?_) rfl rfl rfl rfl
    fun _ ↦ rfl
  exact .inr ⟨taskId, List.mem_singleton.mp hmem⟩

/-! ## Native tasks -/

/-- An input that a tool admits: the rest of the documents stays. -/
theorem admitted_fields {conversationId id : ℕ} {requestId : PiRequestId} {content : PiContent}
    {whenBusy : WhenBusy} {fresh : Bool}
    (h : w.admitPiInput conversationId requestId content whenBusy fresh = .ok (id, w')) :
    w'.rootId = w.rootId ∧ w'.engine = w.engine ∧ w'.effects = w.effects ∧ w'.turns = w.turns ∧
      w'.operations = w.operations ∧ w'.calls = w.calls := by
  rcases admit_cases h with rfl | ⟨-, submission, live, inbox, next, -, -, rfl⟩
  · exact ⟨rfl, rfl, rfl, rfl, rfl, rfl⟩
  · exact ⟨rfl, rfl, rfl, rfl, rfl, rfl⟩

theorem aside_callFunction {taskId conversationId : ℕ} {name arguments : String}
    (h : w.callFunction taskId conversationId name arguments = .ok w') : w.Aside w' := by
  simp only [callFunction, bind, Except.bind] at h
  split at h
  · cases h
  split at h
  · cases h
    exact .refl w
  next hnone =>
  cases h
  refine ⟨rfl, rfl, rfl, fun _ hs ↦ hs, fun _ ↦ rfl, fun _ ↦ rfl,
    fun callId call result hread hresult ↦ ⟨call, ?_, hresult⟩, fun _ ↦ .inl rfl⟩
  have hne : callId ≠ publicCallId taskId := by
    rintro rfl
    rw [hnone] at hread
    cases hread
  exact (OrderedMap.get?_set_of_ne _ hne _).trans hread

theorem aside_spawnAgent {limit taskId conversationId : ℕ} {content : PiContent}
    (h : w.spawnAgent limit taskId conversationId content = .ok w') : w.Aside w' := by
  unfold spawnAgent at h
  split at h
  · cases h
    exact .refl w
  simp only [bind, Except.bind] at h
  split at h
  · cases h
  split at h
  · cases h
  split at h
  · cases h
  next admitted hadmit =>
  obtain ⟨id, w₁⟩ := admitted
  cases h
  obtain ⟨hroot, hengine, heffects, hturns, hoperations, hcalls⟩ := admitted_fields hadmit
  refine ⟨hroot, hengine, heffects, fun turnId hsome ↦ turns_set (w := w₁) rfl turnId ?_,
    fun _ ↦ congrArg (OrderedMap.get? · _) hoperations,
    fun _ ↦ congrArg (OrderedMap.get? · _) hoperations,
    fun _ call _ hread hresult ↦ ⟨call, hcalls ▸ hread, hresult⟩,
    fun turnId ↦ .inl (submitted_of_admitted hadmit nofun)⟩
  rw [hturns]
  exact hsome

theorem aside_sendInput {taskId conversationId : ℕ} {agentId : String} {content : PiContent}
    (h : w.sendInput taskId conversationId agentId content = .ok w') : w.Aside w' := by
  unfold sendInput at h
  split at h
  · cases h
    exact .refl w
  split at h
  · cases h
  split at h
  · cases h
  simp only [bind, Except.bind] at h
  split at h
  · cases h
  split at h
  · cases h
  next admitted hadmit =>
  obtain ⟨id, w₁⟩ := admitted
  cases h
  obtain ⟨hroot, hengine, heffects, hturns, hoperations, hcalls⟩ := admitted_fields hadmit
  refine ⟨hroot, hengine, heffects, fun turnId hsome ↦ turns_set (w := w₁) rfl turnId ?_,
    fun operationId ↦ ?_, fun turnId ↦ ?_,
    fun _ call _ hread hresult ↦ ⟨call, hcalls ▸ hread, hresult⟩,
    fun turnId ↦ .inl (submitted_of_admitted hadmit nofun)⟩
  · rw [hturns]
    exact hsome
  · have hother : PiCommandKey.steer operationId ≠ .send taskId := nofun
    exact (OrderedMap.get?_set_of_ne _ hother _).trans (congrArg (OrderedMap.get? · _) hoperations)
  · have hother : PiCommandKey.cancel turnId ≠ .send taskId := nofun
    exact (OrderedMap.get?_set_of_ne _ hother _).trans (congrArg (OrderedMap.get? · _) hoperations)

/-- No native task touches the receipt of a steer or a cancel, or a result. -/
theorem aside_native {limit : ℕ} {step : NativeStep} (h : w.native limit step = .ok w') :
    w.Aside w' := by
  cases step with
  | run conversationId run =>
    cases h
    exact ⟨rfl, rfl, rfl, fun _ hs ↦ hs, fun _ ↦ rfl, fun _ ↦ rfl,
      fun _ call _ hread hresult ↦ ⟨call, hread, hresult⟩, fun _ ↦ .inl rfl⟩
  | consume conversationId taken =>
    cases h
    exact ⟨rfl, rfl, rfl, fun _ hs ↦ hs, fun _ ↦ rfl, fun _ ↦ rfl,
      fun _ call _ hread hresult ↦ ⟨call, hread, hresult⟩, fun _ ↦ .inl rfl⟩
  | settle submissionId status =>
    cases h
    refine ⟨rfl, rfl, rfl, fun _ hs ↦ hs, fun _ ↦ rfl, fun _ ↦ rfl,
      fun _ call _ hread hresult ↦ ⟨call, hread, hresult⟩, fun turnId ↦ .inl ?_⟩
    refine submitted_map rfl (fun s ↦ ?_) (fun s ↦ ?_) turnId
    · split <;> rfl
    · split <;> rfl
  | callFunction taskId conversationId name arguments => exact aside_callFunction h
  | spawnAgent taskId conversationId content => exact aside_spawnAgent h
  | sendInput taskId conversationId agentId content => exact aside_sendInput h
  | closeAgent taskId agentId =>
    simp only [native, closeAgent] at h
    split at h <;> cases h
    refine ⟨rfl, rfl, rfl, fun _ hs ↦ hs, fun operationId ↦ ?_, fun turnId ↦ ?_,
      fun _ call _ hread hresult ↦ ⟨call, hread, hresult⟩, fun _ ↦ .inl rfl⟩
    · have hother : PiCommandKey.steer operationId ≠ .close taskId := (fun h ↦ by contradiction)
      exact OrderedMap.get?_set_of_ne _ hother _
    · have hother : PiCommandKey.cancel turnId ≠ .close taskId := (fun h ↦ by contradiction)
      exact OrderedMap.get?_set_of_ne _ hother _
  | keeperEnds agentId =>
    simp only [native] at h
    split at h <;> cases h
    · exact ⟨rfl, rfl, rfl, fun _ hs ↦ hs, fun _ ↦ rfl, fun _ ↦ rfl,
        fun _ call _ hread hresult ↦ ⟨call, hread, hresult⟩, fun _ ↦ .inl rfl⟩
    · exact .refl w

/-- **The step lemma of repetitions.** A command that was carried out changes nothing. -/
theorem unchanged_of_applied {launch : PiLaunch} {limit pid : ℕ} {e : PiRequest} {fate : CommitFate}
    {a : e.Answer} (ha : handleEngine launch limit pid e fate w = some (a, w'))
    (happlied : Applied e w) : w' = w := by
  have hcommit {α : Type} {r : Except PiError (α × PiDocuments)} {b : Except PiError α}
      (hr : ∀ b w'', r = .ok (b, w'') → w'' = w)
      (h : (if w.engine = some pid then some (commitPi fate w r) else none) = some (b, w')) :
      w' = w := by
    split at h
    · cases r with
      | error error => cases h; rfl
      | ok result => cases fate <;> cases h <;> first | rfl | exact hr _ _ rfl
    · cases h
  cases e with
  | start command =>
    refine hcommit (fun _ w'' hr ↦ ?_) ha
    obtain ⟨link, hread⟩ := Option.isSome_iff_exists.mp happlied
    rw [start, hread] at hr
    cases hr
    rfl
  | steer turnId input content operationId =>
    refine hcommit (fun _ w'' hr ↦ ?_) ha
    obtain ⟨command, hread⟩ := Option.isSome_iff_exists.mp happlied
    simp only [steer, hread, bind, Except.bind] at hr
    split at hr
    · cases hr
    next receipt hreceipt =>
    cases receipt with
    | replayed => cases hr; rfl
    | new => cases planSteerReceipt_new hreceipt
  | cancel turnId =>
    refine hcommit (fun _ w'' hr ↦ ?_) ha
    obtain ⟨command, hread, hfinished⟩ := happlied
    unfold cancel at hr
    split at hr
    · cases hr
    · simp only [hread, planCancelReceipt, if_pos hfinished] at hr
      cases hr
      rfl
  | toolResult callId result =>
    refine hcommit (fun _ w'' hr ↦ ?_) ha
    obtain ⟨call, hread, hsome⟩ := happlied
    obtain ⟨previous, hprevious⟩ := Option.isSome_iff_exists.mp hsome
    simp only [resolvePiFunction, hread, hprevious] at hr
    split at hr <;> cases hr
    rfl
  | _ => cases happlied

end

end PiDocuments

/-! ## Engines among native tasks

The rules of the library, with the storage as the shared state. `Cancelling` is the one fact that
an engine relies on between its commits. -/

namespace PiEngine

open PiDocuments

/-- As long as the engine has the storage open, the receipt of its cancel is not over. -/
def Cancelling (pid : ℕ) (turnId : String) (w : PiDocuments) : Prop :=
  w.engine = some pid → ∃ command, w.operations.get? (.cancel turnId) = some command ∧
    command.status = .accepted

def Owns (pid : ℕ) : PiRequest → PiDocuments → Prop
  | .abortTask turnId _, w => Cancelling pid turnId w
  | _, _ => True

/-- Only the engine that has the storage open touches the receipt of a cancel. -/
structure Guarded (pid : ℕ) (w w' : PiDocuments) : Prop where
  advances : w.Advances w' ∨ w' = { w with engine := some pid }
  receipts : w.engine = some pid ∨
    ∀ turnId, w'.operations.get? (.cancel turnId) = w.operations.get? (.cancel turnId)

def replaySetting (launch : PiLaunch) (limit : ℕ) :
    Setting PiDocuments PiRequest PiRequest.Answer PiError Unit Call CommitFate where
  service := service launch limit
  discipline := .free
  inv := Recorded
  guar p _ w w' := Guarded p.1 w w'

section

variable {launch : PiLaunch} {limit pid : ℕ} {w w' : PiDocuments}

theorem Guarded.keeps (h : Guarded pid w w') : w.Keeps w' := by
  rcases h.advances with hadvances | rfl
  · exact hadvances.toKeeps
  · exact ⟨fun _ h ↦ h, fun _ _ h ↦ h, fun _ _ h _ ↦ ⟨h, rfl⟩, fun _ call _ h hr ↦ ⟨call, h, hr⟩⟩

theorem Guarded.recorded (h : Guarded pid w w') (hw : w.Recorded) : w'.Recorded := by
  rcases h.advances with hadvances | rfl
  · exact hw.advances hadvances
  · exact ⟨hw.submitted, hw.pushed⟩

theorem commitPi_advances {α : Type} {fate : CommitFate} {r : Except PiError (α × PiDocuments)}
    {a : Except PiError α} (hr : ∀ b w'', r = .ok (b, w'') → w.Advances w'')
    (h : commitPi fate w r = (a, w')) : w.Advances w' := by
  cases r with
  | error error =>
    cases h
    exact .refl w
  | ok result =>
    obtain ⟨b, w₁⟩ := result
    have hadvances : w.Advances w₁ := hr b w₁ rfl
    cases fate <;> cases h
    · exact hadvances
    · exact .refl w
    · exact hadvances

theorem guarded_of_commit {α : Type} {fate : CommitFate} {r : Except PiError (α × PiDocuments)}
    {a : Except PiError α} (hr : ∀ b w'', r = .ok (b, w'') → w.Advances w'')
    (h : (if w.engine = some pid then some (commitPi fate w r) else none) = some (a, w')) :
    Guarded pid w w' := by
  split at h
  · next hengine => exact ⟨.inl (commitPi_advances hr (Option.some.inj h)), .inl hengine⟩
  · cases h

/-- **The step lemma.** -/
theorem guarded_of_step {e : PiRequest} {fate : CommitFate} {a : e.Answer} (hw : w.Recorded)
    (hown : Owns pid e w) (ha : handleEngine launch limit pid e fate w = some (a, w')) :
    Guarded pid w w' := by
  cases e with
  | openStorage =>
    cases ha
    exact ⟨.inr rfl, .inr fun _ ↦ rfl⟩
  | native step =>
    obtain hcommit := Option.some.inj ha
    have haside : w' = w ∨ w.Aside w' := by
      cases hstep : w.native limit step with
      | error error =>
        rw [hstep] at hcommit
        cases hcommit
        exact .inl rfl
      | ok w₁ =>
        rw [hstep] at hcommit
        cases fate <;> cases hcommit
        · exact .inr (aside_native hstep)
        · exact .inl rfl
        · exact .inr (aside_native hstep)
    rcases haside with rfl | haside
    · exact ⟨.inl (.refl _), .inr fun _ ↦ rfl⟩
    · exact ⟨.inl haside.advances, .inr haside.cancels⟩
  | pendingCancels =>
    simp only [handleEngine] at ha
    split at ha <;> cases ha
    exact ⟨.inl (.refl w), .inr fun _ ↦ rfl⟩
  | liveRun conversationId =>
    simp only [handleEngine] at ha
    split at ha <;> cases ha
    exact ⟨.inl (.refl w), .inr fun _ ↦ rfl⟩
  | start command => exact guarded_of_commit (fun _ _ hr ↦ (advances_start hw hr).1) ha
  | steer turnId input content operationId =>
    exact guarded_of_commit (fun _ _ hr ↦ (advances_steer hr).1) ha
  | cancel turnId => exact guarded_of_commit (fun _ _ hr ↦ (advances_cancel hr).1) ha
  | toolResult callId result =>
    exact guarded_of_commit (fun _ _ hr ↦ (advances_toolResult hr).1) ha
  | abortTask turnId taskId =>
    by_cases hengine : w.engine = some pid
    · obtain ⟨command, hread, haccepted⟩ := hown hengine
      refine guarded_of_commit (fun _ w'' hr ↦ ?_) ha
      cases hr
      exact advances_abort hread haccepted
    · simp only [handleEngine, if_neg hengine] at ha
      cases ha
  | stop => cases ha

variable {p : ℕ × Call} {P : PiDocuments → Prop}

theorem meets_request {e : PiRequest} {T : PiError → PiDocuments → Prop}
    {Q : e.Answer → PiDocuments → Prop} (hP : (replaySetting launch limit).Stable p P)
    (hown : ∀ w, P w → Owns p.1 e w)
    (hQ : ∀ w fate a w', P w → handleEngine launch limit p.1 e fate w = some (a, w') → Q a w') :
    (replaySetting launch limit).Meets p P (Prog.perform e) Q T := by
  refine meets_perform hP fun w fate a w' hw hp _ ha ↦ ?_
  have hguarded : Guarded p.1 w w' := guarded_of_step hw (hown w hp) ha
  exact ⟨hguarded.recorded hw, hguarded, hQ w fate a w' hp ha⟩

theorem yields_request {e : PiRequest} (hown : ∀ w, Owns p.1 e w) :
    (replaySetting launch limit).Yields p (Prog.perform e : EngineProg e.Answer) fun _ ↦ True :=
  meets_request stable_true (fun w _ ↦ hown w) fun _ _ _ _ _ _ ↦ trivial

/-- Another engine that touches the receipt has taken the storage over. -/
theorem cancelling_stable {turnId : String} :
    (replaySetting launch limit).Stable p (Cancelling p.1 turnId) := by
  intro q e s t hq _ _ hg hcancelling hengine
  rcases hg.advances with hadvances | rfl
  · rw [hadvances.engine] at hengine
    rcases hg.receipts with hother | hsame
    · rw [hengine] at hother
      exact absurd (Option.some.inj hother).symm hq
    · rw [hsame turnId]
      exact hcancelling hengine
  · exact absurd (Option.some.inj hengine) hq

theorem yields_cancelAccepted (turnId : String) (fuel : ℕ) :
    (replaySetting launch limit).Yields p (cancelAccepted turnId fuel) fun _ ↦ True := by
  induction fuel with
  | zero => exact yields_request fun _ ↦ trivial
  | succ fuel ih =>
    -- The commit that names a task leaves the receipt of the cancel open for its abort.
    refine Meets.bind (M := fun (r : Except PiError (Option (ℕ × ℕ))) w ↦
      ∀ target, r = .ok (some target) → Cancelling p.1 turnId w)
      (meets_request stable_true (fun _ _ ↦ trivial) fun w fate a w' _ ha ↦ ?_) fun r ↦ ?_
    · rintro target rfl -
      simp only [handleEngine] at ha
      split at ha
      · cases hcommit : w.cancel turnId with
        | error error =>
          rw [hcommit] at ha
          cases ha
        | ok result =>
          obtain ⟨b, w₁⟩ := result
          rw [hcommit] at ha
          cases fate <;> cases ha
          exact (advances_cancel hcommit).2.1 rfl
      · cases ha
    cases r with
    | error error => exact meets_raise fun _ _ _ ↦ trivial
    | ok target =>
      refine Meets.bind (M := fun target' w ↦ ∀ t, target' = some t → Cancelling p.1 turnId w)
        (meets_ret fun w _ h t ht ↦ h t (congrArg Except.ok ht)) fun target' ↦ ?_
      cases target' with
      | none => exact meets_ret fun _ _ _ ↦ trivial
      | some t =>
        obtain ⟨taskId, conversationId⟩ := t
        refine Meets.pre (P := Cancelling p.1 turnId) ?_ fun _ _ h ↦ h _ rfl
        refine Meets.bind (M := fun _ _ ↦ True) (meets_request (e := .abortTask turnId taskId)
          cancelling_stable (fun _ h ↦ h) fun _ _ _ _ _ _ ↦ trivial) fun r ↦ ?_
        refine Yields.bind (yields_ofExcept fun _ _ ↦ trivial) fun _ _ ↦ ?_
        refine Yields.bind (yields_request fun _ ↦ trivial) fun live _ ↦ ?_
        split
        · exact yields_ret trivial
        · exact ih

theorem yields_forM {α : Type} {f : α → EngineProg Unit} (xs : List α)
    (h : ∀ x, (replaySetting launch limit).Yields p (f x) fun _ ↦ True) :
    (replaySetting launch limit).Yields p (xs.forM f) fun _ ↦ True := by
  induction xs with
  | nil => exact yields_ret trivial
  | cons x xs ih => exact Yields.bind (h x) fun _ _ ↦ ih

theorem yields_replay (fuel : ℕ) (command : ReplayCommand) :
    (replaySetting launch limit).Yields p (replay launch fuel command) fun _ ↦ True := by
  cases command with
  | start command =>
    dsimp only [replay]
    split
    · exact yields_raise
    · exact Yields.bind (yields_request fun _ ↦ trivial) fun _ _ ↦ yields_ofExcept fun _ _ ↦ trivial
  | steer turnId input operationId =>
    dsimp only [replay]
    split
    · exact yields_raise
    · refine Yields.bind (yields_ofExcept fun _ _ ↦ trivial) fun content _ ↦ ?_
      exact Yields.bind (yields_request fun _ ↦ trivial) fun _ _ ↦ yields_ofExcept fun _ _ ↦ trivial
  | cancel turnId => exact yields_cancelAccepted turnId fuel
  | toolResult callId result =>
    exact Yields.bind (yields_request fun _ ↦ trivial) fun _ _ ↦ yields_ofExcept fun _ _ ↦ trivial

theorem replay_verified :
    (replaySetting launch limit).Verified {} (fun _ _ _ ↦ True) fun _ _ _ ↦ True where
  init := recorded_empty
  body p := by
    obtain ⟨pid, call⟩ := p
    cases call with
    | engine commands fuel =>
      refine Yields.bind (yields_request fun _ ↦ trivial) fun _ _ ↦ ?_
      refine Yields.bind (yields_request fun _ ↦ trivial) fun pending _ ↦ ?_
      refine Yields.bind (yields_forM _ fun _ ↦ yields_cancelAccepted _ fuel) fun _ _ ↦ ?_
      exact yields_forM _ fun command ↦ yields_replay fuel command
    | native step =>
      exact Yields.bind (yields_request fun _ ↦ trivial) fun _ _ ↦ yields_ofExcept fun _ _ ↦ trivial
  post_stable _ _ := stable_true
  fail_stable _ _ := stable_true

end

/-- An answer that is no error comes from a commit that was made. -/
theorem eq_of_commitPi_ok {α : Type} {fate : CommitFate} {r : Except PiError (α × PiDocuments)}
    {b : α} {w w' : PiDocuments} {pid : ℕ}
    (h : (if w.engine = some pid then some (commitPi fate w r) else none) = some (.ok b, w')) :
    r = .ok (b, w') := by
  split at h
  · cases r with
    | error error => cases h
    | ok result => cases fate <;> cases h; rfl
  · cases h

abbrev EngineConfig : Type :=
  Config PiDocuments PiRequest PiRequest.Answer PiError Unit Call

/-- The engine has the answer to a command, and it was carried out. -/
def Succeeds : (e : PiRequest) → e.Answer → Prop
  | .start _, a => a = .ok ()
  | .steer .., a => a = .ok ()
  | .cancel _, a => a = .ok none
  | .toolResult .., a => a = .ok ()
  | _, _ => False

theorem applied_of_succeeds {launch : PiLaunch} {limit pid : ℕ} {e : PiRequest} {fate : CommitFate}
    {a : e.Answer} {w w' : PiDocuments} (hw : w.Recorded)
    (ha : handleEngine launch limit pid e fate w = some (a, w')) (h : Succeeds e a) :
    Applied e w' := by
  cases e with
  | start command =>
    cases h
    exact (advances_start hw (eq_of_commitPi_ok ha)).2
  | steer turnId input content operationId =>
    cases h
    exact (advances_steer (eq_of_commitPi_ok ha)).2
  | cancel turnId =>
    cases h
    exact (advances_cancel (eq_of_commitPi_ok ha)).2.2 rfl
  | toolResult callId result =>
    cases h
    exact (advances_toolResult (eq_of_commitPi_ok ha)).2
  | _ => cases h

/-- **Replaying is idempotent.** Nothing is done twice; what is recorded is kept through every later
run; a command that succeeds is on record, and repeating it changes nothing at all. -/
theorem replay_idempotent (launch : PiLaunch) (limit : ℕ) {c : EngineConfig}
    (hc : Reachable (service launch limit) .free {} c) :
    c.state.Once ∧
      (∀ c', Leads (service launch limit) .free c c' → c.state.Keeps c'.state) ∧
      ∀ pid fate e a w, handleEngine launch limit pid e fate c.state = some (a, w) →
        (Succeeds e a → Applied e w) ∧ (Applied e c.state → w = c.state) := by
  have hsound := replay_verified.reachable hc
  -- Replaying is a matter of one step: a request that is applied already changes nothing.
  refine ⟨hsound.inv.once, fun c' hl ↦ ?_, fun pid fate e a w ha ↦
    ⟨applied_of_succeeds hsound.inv ha, unchanged_of_applied ha⟩⟩
  exact replay_verified.future PiDocuments.Keeps Keeps.refl Keeps.trans
    (fun _ _ _ _ hg ↦ hg.keeps) hsound hl

/-! ## A run

One engine stops after the commit of a cancel, the next one replays everything. -/

def sampleLaunch : PiLaunch where
  sessionId := "sess_1"
  model := "model"
  image _ := none
  validates _ := .ok ()
  acceptsImages _ := true

def sampleCommands : List ReplayCommand :=
  [.start ⟨"turn_1", "sess_1", false, [[.inputText "first"]], none⟩,
    .steer "turn_1" [[.inputText "second"]] "op_1", .cancel "turn_1"]

def sampleReplays : List (Event Call CommitFate) :=
  .start 0 (.engine sampleCommands 2) :: List.replicate 5 (.resume 0 .acknowledged) ++
  .start 1 (.engine sampleCommands 2) :: List.replicate 10 (.resume 1 .acknowledged)

/-- The second engine has added nothing to what the first one did. -/
theorem sampleReplays_once :
    ∃ c, (service sampleLaunch 6).run .free sampleReplays (.initial {}) = some c ∧
      (c.state.turns.get? "turn_1").isSome ∧ c.state.pushed "op_1" ≠ [] ∧ c.state.Once := by
  have hrun : ((service sampleLaunch 6).run .free sampleReplays (.initial {})).map
      (fun c ↦ ((c.state.turns.get? "turn_1").isSome, (c.state.pushed "op_1").length)) =
        some (true, 1) := by
    decide
  obtain ⟨c, hc, hfields⟩ := Option.map_eq_some_iff.mp hrun
  obtain ⟨hturn, hpushed⟩ := Prod.mk.inj hfields
  refine ⟨c, hc, hturn, ?_, (replay_idempotent sampleLaunch 6 (leads_of_run hc)).1⟩
  intro hnil
  rw [hnil] at hpushed
  cases hpushed

end PiEngine

end RatThings
