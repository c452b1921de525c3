import RatThings.Sessions.Accepted
import RatThings.Sessions.Service

/-!
# The document and its history

The document holds exactly the input that was admitted: `Recorded` says this by comparing it with
the log. Two kinds of write keep it. An admission extends document and log together; every other
write is a rewrite in place, `SessionState.Keeps`, which may change how Turns and receipts stand but
neither what was accepted nor from whom.

What one step of any caller may do is `SessionOptions.Guarantee`, and what any number of steps may
do is `SessionWorld.Since`. Both are closed under what the callers need: the guarantee is given at
each request, and what came after a world is stable under the steps of the others.
-/

namespace RatThings

open Concurrent

/-! ## The log

Accepted input is numbered, so that the log determines the order across requests. -/

/-- All accepted input, in the order it was accepted. -/
def acceptedInput (log : List Admission) : List Accepted := log.flatMap (·.accepted)

@[simp] theorem acceptedInput_append (log log' : List Admission) :
    acceptedInput (log ++ log') = acceptedInput log ++ acceptedInput log' := List.flatMap_append

theorem length_accepted (accepted : List Accepted) :
    (acceptedMessages accepted).length + (acceptedResults accepted).length = accepted.length := by
  induction accepted with
  | nil => rfl
  | cons a accepted ih =>
    simp only [acceptedMessages, acceptedResults] at ih ⊢
    cases a <;> simp [List.filterMap_cons, Accepted.message?, Accepted.result?] <;> omega

/-- The ordinals of accepted input are those of its messages and those of its results. -/
theorem ordinals_perm (accepted : List Accepted) :
    ((acceptedMessages accepted).map (·.acceptedOrdinal) ++
      (acceptedResults accepted).map (·.2.2)).Perm (accepted.map (·.ordinal)) := by
  induction accepted with
  | nil => exact .refl _
  | cons a accepted ih =>
    simp only [acceptedMessages, acceptedResults] at ih ⊢
    cases a with
    | message m =>
      simp only [List.filterMap_cons, Accepted.message?, Accepted.result?, List.map_cons]
      exact ih.cons _
    | toolResult turnId callId acceptedOrdinal =>
      simp only [List.filterMap_cons, Accepted.message?, Accepted.result?, List.map_cons]
      exact List.perm_middle.trans (ih.cons _)

/-- What each receipt was filed for: its key, the digest of the request, and its tool results. -/
def SessionState.filed (state : SessionState) :
    List (String × String × List (String × String × ℕ)) :=
  state.receipts.entries.map fun e ↦ (e.1, e.2.digest, commandResults e.2.commands)

theorem results_eq_filed (state : SessionState) : state.results = state.filed.flatMap (·.2.2) := by
  rw [SessionState.filed, List.flatMap_map]
  rfl

namespace SessionOptions

variable {options : SessionOptions}

/-- The document holds exactly the input that was admitted. -/
structure Recorded (options : SessionOptions) (state : SessionState) (log : List Admission) :
    Prop where
  wellFormed : state.WellFormed
  receipts : state.filed =
    log.map fun a ↦ (a.key, options.digest a.events, acceptedResults a.accepted)
  messages : state.messages.Perm (acceptedMessages (acceptedInput log))
  messageIds : (state.messages.map (·.id)).Nodup
  ordinals : (acceptedInput log).map (·.ordinal) = List.range (acceptedInput log).length
  contents : ∀ a ∈ log, (acceptedMessages a.accepted).map (·.message) = inputMessages a.events
  writable : state.closing = false ∧ state.forkLock = none

theorem Recorded.results {state : SessionState} {log : List Admission}
    (h : options.Recorded state log) : state.results = acceptedResults (acceptedInput log) := by
  rw [results_eq_filed, h.receipts, List.flatMap_map, acceptedInput, acceptedResults,
    List.filterMap_flatMap]
  rfl

/-- The next ordinal counts what was accepted. -/
theorem Recorded.length {state : SessionState} {log : List Admission}
    (h : options.Recorded state log) :
    state.messages.length + state.results.length = (acceptedInput log).length := by
  rw [h.messages.length_eq, h.results, length_accepted]

/-- A key has a receipt exactly if a request was admitted under it. -/
theorem Recorded.receipt {state : SessionState} {log : List Admission}
    (h : options.Recorded state log) {key : String} {receipt : Receipt}
    (hr : state.receipts.get? key = some receipt) :
    ∃ a ∈ log, a.key = key ∧ options.digest a.events = receipt.digest := by
  have hmem : (key, receipt.digest, commandResults receipt.commands) ∈
      log.map fun a ↦ (a.key, options.digest a.events, acceptedResults a.accepted) := by
    rw [← h.receipts]
    exact List.mem_map.mpr ⟨(key, receipt), OrderedMap.get?_eq_some.mp hr, rfl⟩
  obtain ⟨a, ha, he⟩ := List.mem_map.mp hmem
  simp only [Prod.mk.injEq] at he
  exact ⟨a, ha, he.1, he.2.1⟩

theorem Recorded.admission {state : SessionState} {log : List Admission}
    (h : options.Recorded state log) {a : Admission} (ha : a ∈ log) :
    ∃ receipt, state.receipts.get? a.key = some receipt ∧
      receipt.digest = options.digest a.events := by
  have hmem : (a.key, options.digest a.events, acceptedResults a.accepted) ∈ state.filed := by
    rw [h.receipts]
    exact List.mem_map.mpr ⟨a, ha, rfl⟩
  obtain ⟨⟨key, receipt⟩, he, heq⟩ := List.mem_map.mp hmem
  simp only [Prod.mk.injEq] at heq
  obtain ⟨rfl, hdigest, -⟩ := heq
  exact ⟨receipt, OrderedMap.get?_eq_some.mpr he, hdigest⟩

theorem Recorded.keys {state : SessionState} {log : List Admission}
    (h : options.Recorded state log) : (log.map (·.key)).Nodup := by
  have hkeys : log.map (·.key) = state.receipts.entries.map Prod.fst := by
    have := congrArg (List.map Prod.fst) h.receipts
    simpa [SessionState.filed, Function.comp_def] using this.symm
  rw [hkeys]
  exact state.receipts.nodup

end SessionOptions

/-! ## Rewrites in place -/

/-- What no writer changes of a receipt. -/
structure Receipt.Follows (old new : Receipt) : Prop where
  digest : new.digest = old.digest
  commands : new.commands = old.commands
  dispatched : old.dispatched → new.dispatched

theorem Receipt.Follows.refl (receipt : Receipt) : receipt.Follows receipt := ⟨rfl, rfl, id⟩

theorem Receipt.Follows.trans {a b c : Receipt} (h : a.Follows b) (h' : b.Follows c) :
    a.Follows c :=
  ⟨h'.digest.trans h.digest, h'.commands.trans h.commands, fun hd ↦ h'.dispatched (h.dispatched hd)⟩

/-- A write that accepts nothing: Turns and receipts are changed one by one. -/
structure SessionState.Keeps (old new : SessionState) : Prop where
  turns : ∃ f : SessionTurnBinding → SessionTurnBinding, new.turns = old.turns.map f ∧
    ∀ b ∈ old.turns, (f b).turn.id = b.turn.id ∧ (f b).input = b.input ∧
      ((f b).isActive → b.isActive)
  receipts : ∃ g : String → Receipt → Receipt, new.receipts = old.receipts.mapValues g ∧
    ∀ key receipt, old.receipts.get? key = some receipt → receipt.Follows (g key receipt)
  writable : new.closing = old.closing ∧ new.forkLock = old.forkLock

theorem SessionState.Keeps.messages {old new : SessionState} (h : old.Keeps new) :
    new.messages = old.messages := by
  obtain ⟨f, hf, hb⟩ := h.turns
  unfold SessionState.messages
  rw [hf, List.flatMap_map]
  exact List.flatMap_congr fun b hmem ↦ (hb b hmem).2.1

theorem SessionState.Keeps.turnIds {old new : SessionState} (h : old.Keeps new) :
    new.turns.map (·.turn.id) = old.turns.map (·.turn.id) := by
  obtain ⟨f, hf, hb⟩ := h.turns
  rw [hf, List.map_map]
  exact List.map_congr_left fun b hmem ↦ (hb b hmem).1

theorem SessionState.Keeps.active {old new : SessionState} (h : old.Keeps new) :
    activeCount new.turns ≤ activeCount old.turns := by
  obtain ⟨f, hf, hb⟩ := h.turns
  rw [activeCount, hf, List.countP_map]
  exact List.countP_mono_left fun b hmem hactive ↦ (hb b hmem).2.2 hactive

/-- A rewrite keeps what the log is compared with. -/
theorem SessionState.Keeps.filed {old new : SessionState} (h : old.Keeps new) :
    new.filed = old.filed := by
  obtain ⟨g, hg, hr⟩ := h.receipts
  rw [SessionState.filed, hg, OrderedMap.entries_mapValues, List.map_map]
  refine List.map_congr_left fun e he ↦ ?_
  have hf := hr e.1 e.2 (OrderedMap.get?_eq_some.mpr he)
  simp only [Function.comp_apply, hf.digest, hf.commands]

/-- A write to the bindings of one Turn. -/
theorem keeps_of_updateTurn {old new : SessionState} {turnId : String}
    {f : SessionTurnBinding → SessionTurnBinding}
    (hturns : new.turns = updateTurn old.turns turnId f)
    (hf : ∀ b ∈ old.turns, b.turn.id = turnId →
      (f b).turn.id = b.turn.id ∧ (f b).input = b.input ∧ ((f b).isActive → b.isActive))
    (hreceipts : new.receipts = old.receipts)
    (hwritable : new.closing = old.closing ∧ new.forkLock = old.forkLock) : old.Keeps new := by
  refine ⟨⟨_, hturns, fun b hb ↦ ?_⟩, ⟨fun _ receipt ↦ receipt, ?_, fun _ r _ ↦ .refl r⟩, hwritable⟩
  · split
    · next hid => exact hf b hb hid
    · exact ⟨rfl, rfl, id⟩
  · rw [hreceipts, OrderedMap.mapValues_id]

/-- A Turn that has ended takes no input. -/
theorem not_active_of_terminal {b : SessionTurnBinding} (h : terminalTurn b.turn) :
    ¬ b.isActive := by
  simp [SessionTurnBinding.isActive, h]

/-- Writing back a receipt whose digest and commands were read earlier is a rewrite: neither has
changed since. -/
theorem keeps_acknowledge {current : SessionState} {key : String} {receipt stored : Receipt}
    (hstored : current.receipts.get? key = some stored) (hf : receipt.Follows stored)
    (failure : Option ReceiptFailure) :
    current.Keeps { current with
      receipts := current.receipts.set key { receipt with dispatched := true, failure } } := by
  refine ⟨⟨id, (List.map_id _).symm, fun b _ ↦ ⟨rfl, rfl, id⟩⟩,
    ⟨_, OrderedMap.set_eq_mapValues hstored _, fun key' r hr ↦ ?_⟩, rfl, rfl⟩
  split
  · next he =>
    rw [he, hstored] at hr
    cases hr
    exact ⟨hf.digest.symm, hf.commands.symm, fun _ ↦ rfl⟩
  · exact .refl r

/-- Exhausted recovery ends Turns and marks receipts, each in place. -/
theorem keeps_exhausted (state : SessionState) (unadmitted : List String) (now : ℕ) :
    state.Keeps (exhaustedState state unadmitted now) := by
  refine ⟨⟨_, rfl, fun b _ ↦ ?_⟩, ⟨fun _ receipt ↦ if receipt.starts unadmitted then
      { receipt with dispatched := true, failure := some recoveryFailure }
    else receipt, rfl, fun key r _ ↦ ?_⟩, rfl, rfl⟩
  · split
    · exact ⟨rfl, rfl, fun h ↦ absurd h (not_active_of_terminal rfl)⟩
    · exact ⟨rfl, rfl, id⟩
  · dsimp only
    split
    · exact ⟨rfl, rfl, fun _ ↦ rfl⟩
    · exact .refl r

/-- Nothing accepted is lost: each receipt is followed, and each Turn keeps its input. -/
structure SessionState.Extends (old new : SessionState) : Prop where
  receipts : ∀ key receipt, old.receipts.get? key = some receipt →
    ∃ receipt', new.receipts.get? key = some receipt' ∧ receipt.Follows receipt'
  turns : TurnsExtend old.turns new.turns

theorem SessionState.Extends.refl (state : SessionState) : state.Extends state :=
  ⟨fun _ receipt h ↦ ⟨receipt, h, .refl receipt⟩, .refl _⟩

theorem SessionState.Extends.trans {a b c : SessionState} (h : a.Extends b) (h' : b.Extends c) :
    a.Extends c := by
  refine ⟨fun key receipt hr ↦ ?_, h.turns.trans h'.turns⟩
  obtain ⟨receipt', hr', hf⟩ := h.receipts key receipt hr
  obtain ⟨receipt'', hr'', hf'⟩ := h'.receipts key receipt' hr'
  exact ⟨receipt'', hr'', hf.trans hf'⟩

theorem SessionState.Keeps.extends {old new : SessionState} (h : old.Keeps new) :
    old.Extends new := by
  refine ⟨fun key receipt hr ↦ ?_, ?_⟩
  · obtain ⟨g, hg, hf⟩ := h.receipts
    exact ⟨g key receipt, by rw [hg, OrderedMap.get?_mapValues, hr, Option.map_some],
      hf key receipt hr⟩
  · obtain ⟨f, hf, hb⟩ := h.turns
    rw [hf]
    exact turnsExtend_map fun b hmem ↦ ⟨(hb b hmem).1, (hb b hmem).2.1 ▸ List.prefix_rfl⟩

/-! ## Admissions -/

/-- The document a request was planned into, with its receipt. -/
def SessionOptions.admitted (options : SessionOptions) (state : SessionState) (key : String)
    (events : List SessionInput) (planned : PlannedInput) : SessionState :=
  { planned.state with
    receipts := state.receipts.set key ⟨options.digest events, planned.commands, false, none⟩ }

section

variable {options : SessionOptions} {state : SessionState} {log : List Admission}
  {key : String} {events : List SessionInput} {ids : PlanIds} {planned : PlannedInput}

theorem results_admitted (hkey : state.receipts.get? key = none) :
    (options.admitted state key events planned).results =
      state.results ++ commandResults planned.commands := by
  simp [SessionState.results, SessionOptions.admitted,
    OrderedMap.entries_set_of_get?_eq_none hkey]

/-- **An admission keeps document and log together.** -/
theorem SessionOptions.Recorded.accept (h : options.Recorded state log)
    (hkey : state.receipts.get? key = none) (hp : state.Accepts ids events planned)
    (hnodup : ids.messageIds.Nodup)
    (hfresh : ∀ id ∈ ids.messageIds, id ∉ state.messages.map (·.id)) :
    options.Recorded (options.admitted state key events planned)
      (log ++ [⟨key, events, planned.accepted⟩]) := by
  have hinput : acceptedInput (log ++ [⟨key, events, planned.accepted⟩]) =
      acceptedInput log ++ planned.accepted := by simp [acceptedInput]
  have hmessages : (options.admitted state key events planned).messages = planned.state.messages :=
    rfl
  refine ⟨⟨hp.wellFormed.1, hp.wellFormed.2, ?_⟩, ?_, ?_, ?_, ?_, ?_, ?_⟩
  · rw [results_admitted hkey]
    exact hp.calls
  · have hset : (options.admitted state key events planned).filed =
        state.filed ++ [(key, options.digest events, commandResults planned.commands)] := by
      simp [SessionState.filed, SessionOptions.admitted,
        OrderedMap.entries_set_of_get?_eq_none hkey]
    rw [hset, h.receipts, List.map_append, List.map_singleton, hp.results]
  · rw [hmessages, hinput, acceptedMessages_append]
    exact hp.messages.trans (h.messages.append_right _)
  · -- The new ids are distinct from each other and from those in the document.
    rw [hmessages, (hp.messages.map _).nodup_iff, List.map_append, List.nodup_append, hp.messageIds]
    refine ⟨h.messageIds, hnodup.sublist (List.take_sublist _ _), fun a ha b hb hab ↦ ?_⟩
    exact hfresh b (List.mem_of_mem_take hb) (hab ▸ ha)
  · rw [hinput, List.map_append, h.ordinals, hp.ordinals, h.length, List.length_append,
      List.range_eq_range', List.range_eq_range', ← List.range'_append_1, Nat.zero_add]
  · intro a ha
    rcases List.mem_append.mp ha with ha | ha
    · exact h.contents a ha
    · rw [List.mem_singleton.mp ha]
      exact hp.contents
  · exact ⟨hp.closing.1.trans h.writable.1, hp.closing.2.trans h.writable.2⟩

/-- The receipts that were filed before are untouched. -/
theorem get?_admitted (hkey : state.receipts.get? key = none) {key' : String} {receipt : Receipt}
    (hr : state.receipts.get? key' = some receipt) :
    (options.admitted state key events planned).receipts.get? key' = some receipt := by
  have hne : key' ≠ key := by
    rintro rfl
    rw [hkey] at hr
    cases hr
  exact (OrderedMap.get?_set_of_ne _ hne _).trans hr

theorem extends_admitted (hkey : state.receipts.get? key = none)
    (hp : state.Accepts ids events planned) :
    state.Extends (options.admitted state key events planned) :=
  ⟨fun _ receipt hr ↦ ⟨receipt, get?_admitted hkey hr, .refl receipt⟩, hp.inputs⟩

end

theorem SessionOptions.Recorded.keeps {options : SessionOptions} {old new : SessionState}
    {log : List Admission} (h : options.Recorded old log) (hk : old.Keeps new) :
    options.Recorded new log := by
  have hresults : new.results = old.results := by
    rw [results_eq_filed, results_eq_filed, hk.filed]
  refine ⟨⟨?_, hk.active.trans h.wellFormed.active, ?_⟩, hk.filed.trans h.receipts, ?_, ?_,
    h.ordinals, h.contents, ?_⟩
  · rw [hk.turnIds]
    exact h.wellFormed.distinct
  · rw [hresults]
    exact h.wellFormed.calls
  · rw [hk.messages]
    exact h.messages
  · rw [hk.messages]
    exact h.messageIds
  · exact ⟨hk.writable.1.trans h.writable.1, hk.writable.2.trans h.writable.2⟩

/-! ## Worlds

The log and the ids that were given out are part of the world, and nobody reads them. -/

/-- The ids in the document were given out. -/
structure SessionWorld.Issued (w : SessionWorld) (state : SessionState) : Prop where
  turnIds : ∀ id ∈ state.turns.map (·.turn.id), id ∈ w.turnIds
  messageIds : ∀ id ∈ state.messages.map (·.id), id ∈ w.messageIds

theorem FreshIds.since {count : ℕ} {ids issued issued₀ : List String}
    (h : FreshIds count ids issued) (hsub : issued₀ ⊆ issued) : FreshIds count ids issued₀ :=
  ⟨h.1, h.2.1, fun id hid hmem ↦ h.2.2 id hid (hsub hmem)⟩

/-- The invariant of a Session. -/
def SessionOptions.Inv (options : SessionOptions) (w : SessionWorld) : Prop :=
  ∃ resource, w.record = some resource ∧ options.Recorded resource.value w.log ∧
    w.Issued resource.value

/-- What any number of steps may do. -/
structure SessionWorld.Since (w w' : SessionWorld) : Prop where
  precedes : w.record.Precedes w'.record
  turnIds : w.turnIds ⊆ w'.turnIds
  messageIds : w.messageIds ⊆ w'.messageIds
  log : w.log <+: w'.log
  document : ∀ old, w.record = some old → ∃ new, w'.record = some new ∧
    old.value.Extends new.value

theorem SessionWorld.Since.refl (w : SessionWorld) : w.Since w :=
  ⟨.refl _, List.Subset.refl _, List.Subset.refl _, List.prefix_rfl,
    fun old h ↦ ⟨old, h, .refl _⟩⟩

theorem SessionWorld.Since.trans {a b c : SessionWorld} (h : a.Since b) (h' : b.Since c) :
    a.Since c := by
  refine ⟨h.precedes.trans h'.precedes, List.Subset.trans h.turnIds h'.turnIds,
    List.Subset.trans h.messageIds h'.messageIds, h.log.trans h'.log, fun old hold ↦ ?_⟩
  obtain ⟨mid, hmid, he⟩ := h.document old hold
  obtain ⟨new, hnew, he'⟩ := h'.document mid hmid
  exact ⟨new, hnew, he.trans he'⟩

theorem SessionWorld.Issued.since {w w' : SessionWorld} {state : SessionState}
    (h : w.Issued state) (hw : w.Since w') : w'.Issued state :=
  ⟨fun id hid ↦ hw.turnIds (h.turnIds id hid), fun id hid ↦ hw.messageIds (h.messageIds id hid)⟩

theorem SessionWorld.Issued.keeps {w : SessionWorld} {old new : SessionState}
    (h : w.Issued old) (hk : old.Keeps new) : w.Issued new :=
  ⟨by rw [hk.turnIds]; exact h.turnIds, by rw [hk.messages]; exact h.messageIds⟩

/-- The request neither writes nor takes ids. -/
def SessionEffect.isLocal : SessionEffect → Bool
  | .replace .. => false
  | .nextIds .. => false
  | _ => true

/-- The receipts a write marks with the failure it has in hand. -/
def SessionEffect.marks : SessionEffect → String → Receipt → Bool
  | .replace _ _ (.acknowledge key), key', _ => key' = key
  | .replace _ _ (.recover unadmitted), _, receipt => receipt.starts unadmitted
  | _, _, _ => false

/-- What the answer to one request of a call may do. -/
structure SessionOptions.Guarantee (options : SessionOptions) (call : SessionOptions.Call)
    (e : SessionEffect) (w w' : SessionWorld) : Prop where
  since : w.Since w'
  /-- Only acknowledgements and recoveries change the failure of a receipt. -/
  failures : ∀ old new, w.record = some old → w'.record = some new → ∀ key receipt receipt',
    old.value.receipts.get? key = some receipt → new.value.receipts.get? key = some receipt' →
      receipt'.failure = receipt.failure ∨ e.marks key receipt
  /-- An `events` call whose key has a receipt writes nothing. -/
  events : ∀ idempotencyKey input, call = .events idempotencyKey input → ∀ old receipt,
    w.record = some old →
    old.value.receipts.get? (options.receiptKey idempotencyKey) = some receipt →
      w'.record = w.record ∧ w'.log = w.log

end RatThings
