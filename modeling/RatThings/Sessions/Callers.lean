import RatThings.Sessions.History

/-!
# Every caller keeps the history

Each caller is verified on its own against what the others may do. What it rests on while it waits
is always of one form: the world is one that came after the world it read. A compare-and-swap that
succeeds has then found the document that was read, so the write is a rewrite of it or an admission
to it.

There are two rules, one for each kind of write. The rule for rewrites is used by dispatch, updates,
completion and recovery, with what each of them changes in place. The rule for admissions needs that
the ids which are put into the document are new: they were given out after the document was read,
and what was in a document was given out before.
-/

namespace RatThings

open Concurrent Service Setting

namespace SessionOptions

variable (options : SessionOptions)

/-- The proof setting of the service, under any restriction of the environment. -/
def setting (D : Discipline SessionWorld SessionEffect Call SessionChoice) :
    Setting SessionWorld SessionEffect SessionEffect.Answer ServiceFailure Unit Call
      SessionChoice where
  service := options.service
  discipline := D
  inv := options.Inv
  guar p e w w' := options.Guarantee p.2 e w w'

variable {options} {D : Discipline SessionWorld SessionEffect Call SessionChoice} {p : ℕ × Call}
  {β γ : Type}

/-! ## Stable assertions -/

theorem since_permanent (w₀ : SessionWorld) : (options.setting D).Permanent w₀.Since :=
  fun _ _ _ _ _ _ hg h ↦ h.trans hg.since

theorem issued_permanent (state : SessionState) :
    (options.setting D).Permanent fun w ↦ w.Issued state :=
  fun _ _ _ _ _ _ hg h ↦ h.since hg.since

theorem Inv.read {w : SessionWorld} {resource : Versioned SessionState} (h : options.Inv w)
    (hr : w.record = some resource) :
    options.Recorded resource.value w.log ∧ w.Issued resource.value := by
  obtain ⟨resource', hr', hrec, hissued⟩ := h
  rw [hr] at hr'
  cases hr'
  exact ⟨hrec, hissued⟩

theorem guarantee_refl (call : Call) (e : SessionEffect) (w : SessionWorld) :
    options.Guarantee call e w w := by
  refine ⟨.refl w, fun old new hold hnew key receipt receipt' hr hr' ↦ .inl ?_,
    fun _ _ _ _ _ _ _ ↦ ⟨rfl, rfl⟩⟩
  rw [hold] at hnew
  cases hnew
  rw [hr] at hr'
  cases hr'
  rfl

/-! ## Requests that leave the world alone -/

theorem handle_local (pid : ℕ) {e : SessionEffect} {x : SessionChoice} {w w' : SessionWorld}
    {a : e.Answer} (he : e.isLocal) (h : handleSession pid e x w = some (a, w')) : w' = w := by
  cases e <;> simp_all [handleSession, SessionEffect.isLocal]

theorem yields_request {e : SessionEffect} (he : e.isLocal) :
    (options.setting D).Yields p (Prog.perform e : SessionProg e.Answer)
      fun a ↦ ∃ x w, handleSession p.1 e x w = some (a, w) := by
  refine yields_perform fun w x a w' hinv _ _ ha ↦ ?_
  obtain rfl := handle_local p.1 he ha
  exact ⟨hinv, guarantee_refl _ _ _, x, w', ha⟩

/-- A request that cannot fail, whatever comes after. -/
theorem meets_local {e : SessionEffect} (he : e.isLocal) {P : SessionWorld → Prop}
    {k : e.Answer → SessionProg β} {Q : β → SessionWorld → Prop}
    {T : ServiceFailure → SessionWorld → Prop} (hP : (options.setting D).Permanent P)
    (hk : ∀ a, (options.setting D).Meets p P (k a) Q T) :
    (options.setting D).Meets p P (Prog.perform e >>= k) Q T := by
  refine meets_call (fun _ ↦ P) hP.stable (fun w x a w' hinv hp _ ha ↦ ?_) hk
  obtain rfl := handle_local p.1 he ha
  exact ⟨hinv, guarantee_refl _ _ _, hp⟩

theorem yields_orThrow {r : Except AgentsApiError β} :
    (options.setting D).Yields p (orThrow r) fun b ↦ r = .ok b := by
  refine yields_ofExcept fun b h ↦ ?_
  cases r with
  | ok b' =>
    cases h
    rfl
  | error e => cases h

theorem yields_orElse {refusal : Option AgentsApiError} :
    (options.setting D).Yields p (orElse refusal) fun _ ↦ True := by
  cases refusal with
  | none => exact yields_ret trivial
  | some error => exact yields_raise

/-- A request that may fail, where nothing is said about its answer. -/
theorem yields_attempt {e : SessionEffect} (he : e.isLocal)
    {f : e.Answer → Except ServiceFailure β} :
    (options.setting D).Yields p
      (Prog.perform e >>= fun a ↦ (Prog.ofExcept (f a) : SessionProg β)) fun _ ↦ True :=
  Yields.bind (yields_request he) fun _ _ ↦ yields_ofExcept fun _ _ ↦ trivial

/-! ## Reading -/

/-- Reading the document: from then on the world came after the one that was read. -/
theorem meets_get {P : SessionWorld → Prop} {k : Slot SessionState → SessionProg β}
    {Q : β → SessionWorld → Prop} {T : ServiceFailure → SessionWorld → Prop}
    (hP : (options.setting D).Permanent P)
    (h : ∀ w₀ resource, options.Inv w₀ → P w₀ → w₀.record = some resource →
      (options.setting D).Meets p w₀.Since (k (some resource)) Q T) :
    (options.setting D).Meets p P (Prog.perform SessionEffect.get >>= k) Q T := by
  refine meets_call (fun a w ↦ ∃ w₀, options.Inv w₀ ∧ P w₀ ∧ w₀.record = a ∧ w₀.Since w)
    hP.stable (fun w x a w' hinv hp _ ha ↦ ?_) fun a w hinv hw ↦ ?_
  · cases ha
    exact ⟨hinv, guarantee_refl _ _ _, w, hinv, hp, rfl, .refl w⟩
  · obtain ⟨w₀, hinv₀, hp₀, rfl, hw⟩ := hw
    obtain ⟨resource, hread, hrec⟩ := hinv₀
    rw [hread]
    exact h w₀ resource ⟨resource, hread, hrec⟩ hp₀ hread w hinv hw

theorem meets_required {P : SessionWorld → Prop} {k : Versioned SessionState → SessionProg β}
    {Q : β → SessionWorld → Prop} {T : ServiceFailure → SessionWorld → Prop}
    (hP : (options.setting D).Permanent P)
    (h : ∀ w₀ resource, options.Inv w₀ → P w₀ → w₀.record = some resource →
      (options.setting D).Meets p w₀.Since (k resource) Q T) :
    (options.setting D).Meets p P (required >>= k) Q T :=
  meets_get hP h

theorem true_permanent : (options.setting D).Permanent fun _ ↦ True :=
  fun _ _ _ _ _ _ _ _ ↦ trivial

/-! ## Replacing -/

/-- A replacement that takes effect has found the document that was read. -/
theorem handle_replace (pid : ℕ) {resource : Versioned SessionState} {value : SessionState}
    {purpose : WritePurpose} {x : SessionChoice} {w w' : SessionWorld} {a : Reply}
    (hread : (Slot.Precedes (some resource) w.record))
    (h : handleSession pid (.replace resource value purpose) x w = some (a, w')) :
    (w' = w ∧ a ≠ .done) ∨ (w.record = some resource ∧
      w' = { w with
        record := some ⟨resource.revision + 1, value⟩
        log := w.log ++ purpose.admissions }) := by
  rcases Fate.settle_cases (Option.some.inj h) with ⟨hnext, -⟩ | hsame
  · right
    obtain ⟨record, hput, rfl⟩ := Option.map_eq_some_iff.mp hnext
    obtain ⟨hrecord, rfl⟩ := hread.eq_of_put hput
    exact ⟨hrecord, rfl⟩
  · exact .inl hsame

/-- The world after a write that took effect came after the world before. -/
theorem since_replace {w : SessionWorld} {resource : Versioned SessionState} {value : SessionState}
    {log : List Admission} (hread : w.record = some resource)
    (he : resource.value.Extends value) :
    w.Since { w with
      record := some ⟨resource.revision + 1, value⟩
      log := w.log ++ log } := by
  refine ⟨?_, List.Subset.refl _, List.Subset.refl _, List.prefix_append _ _, fun old hold ↦ ?_⟩
  · have hput : w.record.put resource.revision value =
        some (some ⟨resource.revision + 1, value⟩) := by
      rw [hread, Slot.put_eq_some]
      exact ⟨rfl, rfl⟩
    exact Slot.precedes_of_put hput
  · rw [hread] at hold
    cases hold
    exact ⟨_, rfl, he⟩

/-- The failures a write changes are those of the receipts it marks. -/
def KeepsFailures (old new : SessionState) (marks : String → Receipt → Bool) : Prop :=
  ∀ key receipt receipt', old.receipts.get? key = some receipt →
    new.receipts.get? key = some receipt' → receipt'.failure = receipt.failure ∨ marks key receipt

/-- A rewrite that leaves the receipts alone changes no failure. -/
theorem keepsFailures_of_receipts {old new : SessionState} {marks : String → Receipt → Bool}
    (h : new.receipts = old.receipts) : KeepsFailures old new marks := by
  intro key receipt receipt' hr hr'
  rw [h, hr] at hr'
  cases hr'
  exact .inl rfl

theorem keepsFailures_acknowledge (current : SessionState) (key : String) (acknowledged : Receipt) :
    KeepsFailures current
      { current with receipts := current.receipts.set key acknowledged } fun key' _ ↦ key' =
        key := by
  intro key' r r' hr hr'
  by_cases he : key' = key
  · exact .inr (decide_eq_true he)
  · left
    rw [OrderedMap.get?_set_of_ne _ he, hr] at hr'
    cases hr'
    rfl

theorem keepsFailures_exhausted (state : SessionState) (unadmitted : List String) (now : ℕ) :
    KeepsFailures state (exhaustedState state unadmitted now) fun _ r ↦ r.starts unadmitted := by
  intro key r r' hr hr'
  have hget : (exhaustedState state unadmitted now).receipts.get? key = _ :=
    OrderedMap.get?_mapValues _ _ _
  rw [hget, hr, Option.map_some] at hr'
  cases hr'
  by_cases hstarts : r.starts unadmitted
  · exact .inr hstarts
  · simp [hstarts]

/-- The document that was read has been replaced by this one. -/
def Replaced (resource : Versioned SessionState) (value : SessionState) (w : SessionWorld) : Prop :=
  ∃ w₀ : SessionWorld, w₀.record = some ⟨resource.revision + 1, value⟩ ∧ w₀.Since w

/-- **The rule for rewrites.** Once a rewrite is acknowledged, the document has been the new one. -/
theorem meets_replaced {w₀ : SessionWorld} {resource : Versioned SessionState}
    {value : SessionState}
    {purpose : WritePurpose} (hcall : ∀ key input, p.2 ≠ .events key input)
    (hread : w₀.record = some resource) (hnone : purpose.admissions = [])
    (hkeeps : resource.value.Keeps value)
    (hfail : KeepsFailures resource.value value
      (SessionEffect.marks (.replace resource value purpose))) :
    (options.setting D).Meets p w₀.Since (replaceSession resource value purpose)
      (fun _ ↦ Replaced resource value) fun _ _ ↦ True := by
  refine Meets.bind (meets_perform (Q := fun (a : Reply) w ↦ a = .done → Replaced resource value w)
    (since_permanent w₀).stable fun w x a w' hinv hw _ ha ↦ ?_) fun a w _ h ↦ ?_
  · have hprec : Slot.Precedes (some resource) w.record := hread ▸ hw.precedes
    rcases handle_replace p.1 hprec ha with ⟨rfl, hne⟩ | ⟨hrecord, rfl⟩
    · exact ⟨hinv, guarantee_refl _ _ _, fun h ↦ absurd h hne⟩
    · obtain ⟨hrec, hissued⟩ := hinv.read hrecord
      rw [hnone, List.append_nil]
      refine ⟨⟨_, rfl, hrec.keeps hkeeps, ⟨?_, ?_⟩⟩, ⟨?_, ?_, ?_⟩, fun _ ↦ ⟨_, rfl, .refl _⟩⟩
      · exact (hissued.keeps hkeeps).turnIds
      · exact (hissued.keeps hkeeps).messageIds
      · have hsince : w.Since { w with
            record := some ⟨resource.revision + 1, value⟩
            log := w.log ++ [] } := since_replace hrecord hkeeps.extends
        simpa using hsince
      · intro old new hold hnew
        rw [hrecord] at hold
        cases hold
        cases hnew
        exact hfail
      · exact fun key input h ↦ absurd h (hcall key input)
  · cases a with
    | done => exact h rfl
    | conflict => trivial
    | unknown => trivial

theorem meets_replace {w₀ : SessionWorld} {resource : Versioned SessionState} {value : SessionState}
    {purpose : WritePurpose} (hcall : ∀ key input, p.2 ≠ .events key input)
    (hread : w₀.record = some resource) (hnone : purpose.admissions = [])
    (hkeeps : resource.value.Keeps value)
    (hfail : KeepsFailures resource.value value
      (SessionEffect.marks (.replace resource value purpose))) :
    (options.setting D).Meets p w₀.Since (replaceSession resource value purpose)
      (fun _ _ ↦ True) fun _ _ ↦ True :=
  (meets_replaced hcall hread hnone hkeeps hfail).conseq (fun _ _ h ↦ h)
    (fun _ _ _ _ ↦ trivial) fun _ _ _ _ ↦ trivial

/-! ## Observing -/

/-- The execution answers about the Turn it was asked about. -/
theorem observed_id {pid : ℕ} {turn : Turn} {a : Except ServiceFailure SessionTurnObservation}
    {item : SessionTurnObservation}
    (ha : ∃ x w, handleSession pid (.observe turn) x w = some (a, w)) (h : a = .ok item) :
    item.turn.id = turn.id := by
  obtain ⟨x, w, hx⟩ := ha
  simp only [handleSession, Option.some.injEq, Prod.mk.injEq, and_true] at hx
  rw [← hx, SessionChoice.attempt] at h
  split at h
  · cases h
    rfl
  · cases h

theorem yields_observeTurn (binding : SessionTurnBinding) :
    (options.setting D).Yields p (observeTurn binding) fun item ↦
      item.turn.id = binding.turn.id ∧ (terminalTurn binding.turn → item.turn = binding.turn) := by
  unfold observeTurn
  split
  · exact yields_ret ⟨rfl, fun _ ↦ rfl⟩
  · next hterm =>
    refine Yields.bind (yields_request rfl) fun a ha ↦ yields_ofExcept fun item hitem ↦ ?_
    exact ⟨observed_id ha hitem, fun h ↦ absurd h hterm⟩

theorem yields_observeTurns (turns : List SessionTurnBinding) :
    (options.setting D).Yields p (observeTurns turns) fun items ↦
      List.Forall₂ (fun binding item ↦ item.turn.id = binding.turn.id ∧
        (terminalTurn binding.turn → item.turn = binding.turn)) turns items := by
  induction turns with
  | nil => exact yields_ret .nil
  | cons binding turns ih =>
    refine Yields.bind (yields_observeTurn binding) fun item hitem ↦ ?_
    refine Yields.bind ih fun items hitems ↦ ?_
    exact yields_ret (.cons hitem hitems)

/-- A Turn that has ended is found in the observation as it was saved. -/
theorem find?_observations {turns : List SessionTurnBinding} {items : List SessionTurnObservation}
    (hitems : List.Forall₂ (fun binding item ↦ item.turn.id = binding.turn.id ∧
      (terminalTurn binding.turn → item.turn = binding.turn)) turns items)
    (hd : (turns.map (·.turn.id)).Nodup) {binding : SessionTurnBinding} (hb : binding ∈ turns)
    (hterm : terminalTurn binding.turn) :
    ∃ item, (items.find? fun item ↦ item.turn.id = binding.turn.id) = some item ∧
      item.turn = binding.turn := by
  induction hitems with
  | nil => cases hb
  | @cons b item turns items hitem _ ih =>
    rw [List.map_cons, List.nodup_cons] at hd
    rcases List.mem_cons.mp hb with rfl | hb
    · exact ⟨item, by rw [List.find?_cons_of_pos (by simpa using hitem.1)], hitem.2 hterm⟩
    · have hne : item.turn.id ≠ binding.turn.id := by
        rw [hitem.1]
        exact fun he ↦ hd.1 (he ▸ List.mem_map.mpr ⟨binding, hb, rfl⟩)
      rw [List.find?_cons_of_neg (by simpa using hne)]
      exact ih hd.2 hb

theorem yields_observe {state : SessionState} (hd : (state.turns.map (·.turn.id)).Nodup) :
    (options.setting D).Yields p (observe state) fun o ↦ o.Respects state := by
  refine Yields.bind (yields_observeTurns state.turns) fun items hitems ↦ ?_
  refine Yields.bind (yields_request rfl) fun subagents _ ↦ ?_
  refine Yields.bind (yields_ofExcept fun _ _ ↦ trivial) fun subagents (_ : True) ↦ ?_
  refine Yields.bind (yields_request rfl) fun failed _ ↦ ?_
  refine Yields.bind (yields_ofExcept fun _ _ ↦ trivial) fun failed (_ : True) ↦ ?_
  refine yields_ret fun binding hb hterm item hitem ↦ ?_
  obtain ⟨item', hfind, hturn⟩ := find?_observations hitems hd hb hterm
  -- The root Turns come first, so the lookup stops at the item found among them.
  simp only [observeSession, List.find?_map, Function.comp_def, List.find?_append, hfind,
    Option.some_or, Option.map_some, Option.some.injEq] at hitem
  rw [← hitem, hturn]
  exact hterm

/-! ## Dispatch -/

section

variable (hcall : ∀ key input, p.2 ≠ Call.events key input)
include hcall

theorem yields_deliverCommand (resource : Versioned SessionState) (command : SessionCommand) :
    (options.setting D).Yields p (options.deliverCommand resource command) fun _ ↦ True := by
  rcases command with ⟨turnId, input⟩ | ⟨turnId, input, operationId⟩ | turnId | event
  · simp only [deliverCommand]
    split
    · exact yields_raise
    next binding hbinding =>
    have hid : binding.turn.id = turnId := by simpa using List.find?_some hbinding
    refine Yields.bind yields_orElse fun _ _ ↦ ?_
    split
    · refine Yields.bind (yields_request rfl) fun a _ ↦ ?_
      refine Yields.bind (yields_ofExcept fun _ _ ↦ trivial) fun _ (_ : True) ↦ ?_
      refine Yields.bind (yields_request rfl) fun a ha ↦ ?_
      refine Yields.bind (yields_ofExcept fun item hitem ↦ observed_id ha hitem) fun item hitem ↦ ?_
      refine Yields.bind (yields_request rfl) fun now _ ↦ ?_
      refine meets_required true_permanent fun w₀ current hinv _ hread ↦ ?_
      refine meets_replace hcall hread rfl
        (keeps_of_updateTurn rfl (fun b _ hb ↦ ?_) rfl ⟨rfl, rfl⟩)
        (keepsFailures_of_receipts rfl)
      by_cases hterm : terminalTurn b.turn
      · simp only [hterm, if_true]
        exact ⟨trivial, trivial, id⟩
      · have hcancelled : (cancelledStartTurn item.turn now).id = item.turn.id := by
          unfold cancelledStartTurn
          split <;> rfl
        simp only [hterm]
        refine ⟨by rw [hb, ← hid, ← hitem]; exact hcancelled, trivial, fun h ↦ ?_⟩
        simp only [SessionTurnBinding.isActive, Bool.and_eq_true] at h ⊢
        exact ⟨h.1, by simpa using hterm⟩
    · refine Yields.bind (yields_request rfl) fun a _ ↦ ?_
      refine Yields.bind (yields_ofExcept fun _ _ ↦ trivial) fun _ (_ : True) ↦ ?_
      exact yields_ret trivial
  all_goals
    refine Yields.bind (yields_request rfl) fun a _ ↦ ?_
    refine Yields.bind (yields_ofExcept fun _ _ ↦ trivial) fun _ (_ : True) ↦ ?_
    exact yields_ret trivial

theorem yields_recordRefusal (key : String) (resource : Versioned SessionState)
    (command : SessionCommand) (error : ServiceFailure) :
    (options.setting D).Yields p (recordRefusal key resource command error) fun _ ↦ True := by
  unfold recordRefusal
  split
  · exact yields_raise
  split
  · exact yields_raise
  dsimp only
  split
  · refine meets_required true_permanent fun w₀ current hinv _ hread ↦ ?_
    refine Yields.seq (since_permanent w₀) (yields_request rfl) fun now _ ↦ ?_
    refine Meets.bind (M := fun _ _ ↦ True) (meets_replace hcall hread rfl ?_ ?_)
      fun _ ↦ meets_ret fun _ _ _ ↦ trivial
    · refine keeps_of_updateTurn rfl (fun b _ _ ↦ ⟨rfl, rfl, fun h ↦ ?_⟩) rfl ⟨rfl, rfl⟩
      exact absurd h (not_active_of_terminal rfl)
    · exact keepsFailures_of_receipts rfl
  · exact yields_ret trivial

theorem yields_dispatchCommand (key : String) (resource : Versioned SessionState)
    (failure : Option ReceiptFailure) (command : SessionCommand) :
    (options.setting D).Yields p (options.dispatchCommand key resource failure command)
      fun _ ↦ True := by
  refine Yields.catching ?_ fun error ↦ ?_
  · exact Yields.bind (yields_deliverCommand hcall resource command) fun _ _ ↦ yields_ret trivial
  · exact Yields.bind (yields_recordRefusal hcall key resource command error) fun _ _ ↦
      yields_ret trivial

theorem yields_dispatchCommands (key : String) (commands : List SessionCommand)
    (resource : Versioned SessionState) (failure : Option ReceiptFailure) :
    (options.setting D).Yields p (options.dispatchCommands key commands resource failure)
      fun _ ↦ True := by
  induction commands generalizing resource failure with
  | nil => exact yields_ret trivial
  | cons command commands ih =>
    exact Yields.bind (yields_dispatchCommand hcall key resource failure command) fun r _ ↦
      ih r.1 r.2

theorem meets_dispatchReceipts {w₁ : SessionWorld} {old : Versioned SessionState}
    (hold : w₁.record = some old) (receipts : List (String × Receipt))
    (hmem : ∀ e ∈ receipts, old.value.receipts.get? e.1 = some e.2)
    (resource : Versioned SessionState) :
    (options.setting D).Meets p w₁.Since (options.dispatchReceipts receipts resource)
      (fun _ _ ↦ True) fun _ _ ↦ True := by
  induction receipts generalizing resource with
  | nil => exact meets_ret fun _ _ _ ↦ trivial
  | cons e receipts ih =>
    obtain ⟨key, receipt⟩ := e
    have ih := ih fun e he ↦ hmem e (List.mem_cons_of_mem _ he)
    rw [dispatchReceipts]
    split
    · exact ih resource
    refine Yields.seq (since_permanent w₁) (yields_dispatchCommands hcall key _ _ _) fun r _ ↦ ?_
    refine meets_get (since_permanent w₁) fun w₀ current hinv hsince hread ↦ ?_
    dsimp only
    split
    · exact meets_ret fun _ _ _ ↦ trivial
    -- The receipt that was read first is still filed, with the same digest and commands.
    obtain ⟨current', hcurrent, hext⟩ := hsince.document old hold
    rw [hread] at hcurrent
    cases hcurrent
    obtain ⟨stored, hstored, hf⟩ := hext.receipts key receipt (hmem _ List.mem_cons_self)
    refine Meets.bind (M := fun _ ↦ w₁.Since) ?_ fun resource ↦ ih resource
    exact ((meets_replace hcall hread rfl (keeps_acknowledge hstored hf _)
      (keepsFailures_acknowledge _ key _)).frame (since_permanent w₀)).conseq
        (fun _ _ h ↦ ⟨h, h⟩) (fun _ _ _ h ↦ hsince.trans h.1) fun _ _ _ _ ↦ trivial

theorem yields_dispatch : (options.setting D).Yields p options.dispatch fun _ ↦ True := by
  refine meets_get true_permanent fun w₁ resource hinv _ hread ↦ ?_
  refine Yields.seq (since_permanent w₁) (yields_request rfl) fun now _ ↦ ?_
  split
  · exact meets_ret fun _ _ _ ↦ trivial
  · refine Yields.seq (since_permanent w₁) yields_orElse fun _ _ ↦ ?_
    refine Yields.seq (since_permanent w₁) (yields_request rfl) fun a _ ↦ ?_
    refine Yields.seq (since_permanent w₁) (yields_ofExcept fun _ _ ↦ trivial) fun _ (_ : True) ↦ ?_
    exact meets_dispatchReceipts hcall hread _
      (fun e he ↦ OrderedMap.get?_eq_some.mpr he) resource

/-! ## Updates, completion and recovery -/

theorem yields_update (input : SessionUpdate) :
    (options.setting D).Yields p (options.update input) fun _ ↦ True := by
  refine meets_required true_permanent fun w₀ resource hinv _ hread ↦ ?_
  obtain ⟨hrec, -⟩ := hinv.read hread
  refine Yields.seq (since_permanent w₀) (yields_request rfl) fun now _ ↦ ?_
  refine Yields.seq (since_permanent w₀) yields_orThrow fun _ _ ↦ ?_
  refine Yields.seq (since_permanent w₀) (yields_observe hrec.wellFormed.distinct) fun o _ ↦ ?_
  refine Yields.seq (since_permanent w₀) yields_orThrow fun agent _ ↦ ?_
  refine Yields.seq (since_permanent w₀) yields_orElse fun _ _ ↦ ?_
  refine Meets.bind (M := fun _ _ ↦ True) (meets_replace hcall hread rfl ?_ ?_)
    fun _ ↦ meets_ret fun _ _ _ ↦ trivial
  · exact ⟨⟨id, (List.map_id _).symm, fun b _ ↦ ⟨rfl, rfl, id⟩⟩,
      ⟨fun _ r ↦ r, (OrderedMap.mapValues_id _).symm, fun _ r _ ↦ .refl r⟩, rfl, rfl⟩
  · exact keepsFailures_of_receipts rfl

theorem yields_completeTurn (turnId : String) :
    (options.setting D).Yields p (completeTurn turnId) fun _ ↦ True := by
  refine meets_get true_permanent fun w₀ resource hinv _ hread ↦ ?_
  dsimp only
  split
  · exact meets_raise fun _ _ _ ↦ trivial
  next binding hbinding =>
  have hid : binding.turn.id = turnId := by simpa using List.find?_some hbinding
  refine Yields.seq (since_permanent w₀) (yields_observeTurn binding) fun item hitem ↦ ?_
  split
  · exact meets_ret fun _ _ _ ↦ trivial
  next hterm =>
  refine Yields.seq (since_permanent w₀) (yields_request rfl) fun a _ ↦ ?_
  refine Yields.seq (since_permanent w₀) (yields_ofExcept fun _ _ ↦ trivial)
    fun saved (_ : True) ↦ ?_
  refine Yields.seq (since_permanent w₀) (yields_request rfl) fun a _ ↦ ?_
  refine Yields.seq (since_permanent w₀) (yields_ofExcept fun _ _ ↦ trivial)
    fun subs (_ : True) ↦ ?_
  split
  · refine Meets.bind (M := fun _ _ ↦ True) (meets_replace hcall hread rfl ?_ ?_)
      fun _ ↦ meets_ret fun _ _ _ ↦ trivial
    · refine keeps_of_updateTurn rfl (fun b _ hb ↦ ⟨?_, rfl, fun h ↦ ?_⟩) rfl ⟨rfl, rfl⟩
      · exact hitem.1.trans (hid.trans hb.symm)
      · exact absurd h (not_active_of_terminal (by simpa using hterm))
    · exact keepsFailures_of_receipts rfl
  · exact meets_ret fun _ _ _ ↦ trivial

theorem yields_recoverPi : (options.setting D).Yields p recoverPi fun _ ↦ True := by
  refine meets_get true_permanent fun w₀ state hinv _ _ ↦ ?_
  dsimp only
  split
  · exact meets_ret fun _ _ _ ↦ trivial
  refine Yields.seq (since_permanent w₀) (yields_request rfl) fun a _ ↦ ?_
  refine Yields.seq (since_permanent w₀) (yields_ofExcept fun _ _ ↦ trivial)
    fun found (_ : True) ↦ ?_
  split
  · exact meets_ret fun _ _ _ ↦ trivial
  refine meets_get (since_permanent w₀) fun w₁ current hinv₁ _ hread ↦ ?_
  dsimp only
  split
  · exact meets_ret fun _ _ _ ↦ trivial
  refine Yields.seq (since_permanent w₁) (yields_request rfl) fun now _ ↦ ?_
  split
  · exact meets_ret fun _ _ _ ↦ trivial
  refine Meets.bind (M := fun _ _ ↦ True)
    (meets_replace hcall hread rfl (keeps_exhausted _ _ now) (keepsFailures_exhausted _ _ now))
    fun _ ↦ meets_ret fun _ _ _ ↦ trivial

end

/-! ## Accepting input

The plan is made from the document that was read, and the admission takes effect only on it. -/

/-- `value` is the document `state` with the request planned into it. -/
def Admits (options : SessionOptions) (state : SessionState) (key : String)
    (input : List SessionInput) (value : SessionState) (admission : Admission) : Prop :=
  ∃ ids planned, state.Accepts ids input planned ∧ ids.messageIds.Nodup ∧
    (∀ id ∈ ids.messageIds, id ∉ state.messages.map (·.id)) ∧
    value = options.admitted state key input planned ∧
    admission = ⟨key, input, planned.accepted⟩

/-- New ids are distinct, given out, and in no document that was read before. -/
structure NewIds (w₀ : SessionWorld) (turns messages : ℕ)
    (ids : List String × List String × List String) (w : SessionWorld) : Prop where
  since : w₀.Since w
  turnIds : FreshIds turns ids.1 w₀.turnIds ∧ ids.1 ⊆ w.turnIds
  messageIds : FreshIds messages ids.2.1 w₀.messageIds ∧ ids.2.1 ⊆ w.messageIds

theorem newIds_permanent (w₀ : SessionWorld) (turns messages : ℕ)
    (ids : List String × List String × List String) :
    (options.setting D).Permanent (NewIds w₀ turns messages ids) := by
  intro q e s t _ _ hg h
  have hturns : ids.1 ⊆ t.turnIds := fun id hid ↦ hg.since.turnIds (h.turnIds.2 hid)
  have hmessages : ids.2.1 ⊆ t.messageIds := fun id hid ↦ hg.since.messageIds (h.messageIds.2 hid)
  exact ⟨h.since.trans hg.since, ⟨h.turnIds.1, hturns⟩, h.messageIds.1, hmessages⟩

theorem meets_nextIds (w₀ : SessionWorld) (turns messages : ℕ) :
    (options.setting D).Meets p w₀.Since
      (Prog.perform (SessionEffect.nextIds turns messages) : SessionProg _)
      (NewIds w₀ turns messages) fun _ _ ↦ True := by
  refine meets_perform (since_permanent w₀).stable fun w x a w' hinv hw _ ha ↦ ?_
  change (if _ then _ else _) = _ at ha
  split at ha
  · next hfresh =>
    cases ha
    have hsince : w.Since { w with
        turnIds := w.turnIds ++ x.turnIds
        messageIds := w.messageIds ++ x.messageIds } :=
      { SessionWorld.Since.refl w with
        turnIds := List.subset_append_left _ _
        messageIds := List.subset_append_left _ _ }
    obtain ⟨resource, hread, hrec, hissued⟩ := hinv
    refine ⟨⟨resource, hread, hrec, hissued.since hsince⟩, ⟨hsince, ?_, ?_⟩, hw.trans hsince,
      ⟨hfresh.1.since hw.turnIds, List.subset_append_right _ _⟩,
      hfresh.2.since hw.messageIds, List.subset_append_right _ _⟩
    · have hrefl : options.Guarantee p.2 .get w w := guarantee_refl _ _ _
      exact hrefl.failures
    · exact fun _ _ _ _ _ _ _ ↦ ⟨rfl, rfl⟩
  · cases ha

theorem meets_plan {w₀ : SessionWorld} {resource : Versioned SessionState}
    {observation : SessionObservation} (hinv : options.Inv w₀) (hread : w₀.record = some resource)
    (hobs : observation.Respects resource.value) (input : List SessionInput) (key : String)
    (anchors : List (String × String)) :
    (options.setting D).Meets p w₀.Since
      (options.plan resource.value observation input key anchors)
      (fun r w ↦ (w₀.Since w ∧ w.Issued r.1) ∧ options.Admits resource.value key input r.1 r.2)
      fun _ _ ↦ True := by
  obtain ⟨hrec, hissued⟩ := hinv.read hread
  refine Meets.bind (meets_nextIds w₀ input.length (inputMessages input).length) fun ids ↦ ?_
  obtain ⟨turnIds, messageIds, operationIds⟩ := ids
  have hperm : (options.setting D).Permanent (NewIds w₀ input.length (inputMessages input).length
      (turnIds, messageIds, operationIds)) := newIds_permanent _ _ _ _
  refine Yields.seq hperm (yields_request rfl) fun now _ ↦ ?_
  refine Yields.seq hperm yields_orThrow fun planned hplanned ↦ ?_
  refine Yields.seq hperm yields_orElse fun _ _ ↦ ?_
  refine meets_ret fun w hinv hw ↦ ?_
  obtain ⟨⟨hcount, hnodup, hfresh⟩, hturns⟩ := hw.turnIds
  obtain ⟨⟨hcount', hnodup', hfresh'⟩, hmessages⟩ := hw.messageIds
  have haccepts := planSessionInput_accepts hrec.wellFormed hobs hcount.ge hnodup
    (fun id hid hmem ↦ hfresh id hid (hissued.turnIds id hmem)) hcount'.ge hplanned
  refine ⟨⟨hw.since, ⟨fun id hid ↦ ?_, fun id hid ↦ ?_⟩⟩, _, planned, haccepts, hnodup',
    fun id hid hmem ↦ hfresh' id hid (hissued.messageIds id hmem), rfl, rfl⟩
  · rcases haccepts.turnIds id hid with h | h
    · exact hw.since.turnIds (hissued.turnIds id h)
    · exact hturns h
  · have hperm := (haccepts.messages.map (·.id)).mem_iff.mp hid
    rw [List.map_append, haccepts.messageIds, List.mem_append] at hperm
    rcases hperm with h | h
    · exact hw.since.messageIds (hissued.messageIds id h)
    · exact hmessages (List.mem_of_mem_take h)

/-- A request was admitted under this key. -/
def Admitted (options : SessionOptions) (idempotencyKey : String) (input : List SessionInput)
    (w : SessionWorld) : Prop :=
  ∃ a ∈ w.log, a.key = options.receiptKey idempotencyKey ∧ a.events = input

/-- **The rule for admissions.** -/
theorem meets_accept {w₀ : SessionWorld} {resource : Versioned SessionState} {value : SessionState}
    {admission : Admission} {idempotencyKey : String} {input : List SessionInput}
    (hp : p.2 = .events idempotencyKey input) (hread : w₀.record = some resource)
    (habsent : resource.value.receipts.get? (options.receiptKey idempotencyKey) = none)
    (hadmits : options.Admits resource.value (options.receiptKey idempotencyKey) input value
      admission) :
    (options.setting D).Meets p (fun w ↦ w₀.Since w ∧ w.Issued value)
      (replaceSession resource value (.accept admission))
      (fun _ ↦ options.Admitted idempotencyKey input) fun _ _ ↦ True := by
  obtain ⟨ids, planned, haccepts, hnodup, hfresh, rfl, rfl⟩ := hadmits
  refine Meets.bind (meets_perform
    (Q := fun (a : Reply) w ↦ a = .done → options.Admitted idempotencyKey input w)
    ((since_permanent w₀).stable.and (issued_permanent _).stable)
    fun w x a w' hinv hw _ ha ↦ ?_) fun a ↦ ?_
  · have hprec : Slot.Precedes (some resource) w.record := hread ▸ hw.1.precedes
    rcases handle_replace p.1 hprec ha with ⟨rfl, hne⟩ | ⟨hrecord, rfl⟩
    · exact ⟨hinv, guarantee_refl _ _ _, fun hdone ↦ absurd hdone hne⟩
    · obtain ⟨hrec, hissued⟩ := hinv.read hrecord
      refine ⟨⟨_, rfl, hrec.accept habsent haccepts hnodup hfresh, hw.2.turnIds, hw.2.messageIds⟩,
        ⟨since_replace hrecord (extends_admitted habsent haccepts), ?_, ?_⟩,
        fun _ ↦ ⟨_, List.mem_append_right _ List.mem_cons_self, rfl, rfl⟩⟩
      · -- The receipts that were there are there still.
        intro old new hold hnew key receipt receipt' hr hr'
        rw [hrecord] at hold
        cases hold
        cases hnew
        have hget : (options.admitted resource.value _ input planned).receipts.get? key =
          some receipt := get?_admitted habsent hr
        rw [hget] at hr'
        cases hr'
        exact .inl rfl
      · intro key' input' hcall old receipt hold hr
        rw [hp] at hcall
        cases hcall
        rw [hrecord] at hold
        cases hold
        rw [habsent] at hr
        cases hr
  · cases a with
    | done => exact meets_ret fun w _ h ↦ h rfl
    | conflict => exact meets_raise fun _ _ _ ↦ trivial
    | unknown => exact meets_raise fun _ _ _ ↦ trivial

theorem admitted_permanent (idempotencyKey : String) (input : List SessionInput) :
    (options.setting D).Permanent (options.Admitted idempotencyKey input) :=
  fun _ _ _ _ _ _ hg ⟨a, ha, h⟩ ↦ ⟨a, hg.since.log.subset ha, h⟩

/-- One attempt, from what the attempts after it do. -/
theorem meets_attempt {idempotencyKey : String} {input : List SessionInput}
    (hp : p.2 = .events idempotencyKey input) (attempts : ℕ)
    (hrest : attempts ≠ 0 → (options.setting D).Meets p (fun _ ↦ True)
      (options.eventsAttempts (options.receiptKey idempotencyKey) input attempts)
      (fun _ ↦ options.Admitted idempotencyKey input) fun _ _ ↦ True) :
    (options.setting D).Meets p (fun _ ↦ True)
      (options.eventsAttempts (options.receiptKey idempotencyKey) input (attempts + 1))
      (fun _ ↦ options.Admitted idempotencyKey input) fun _ _ ↦ True := by
  refine meets_required true_permanent fun w₀ resource hinv _ hread ↦ ?_
  obtain ⟨hrec, -⟩ := hinv.read hread
  refine Yields.seq (since_permanent w₀) (yields_request rfl) fun now _ ↦ ?_
  refine Yields.seq (since_permanent w₀) yields_orThrow fun _ _ ↦ ?_
  split
  · -- The key has a receipt, so a request was admitted under it; equal digests mean equal requests.
    next previous hprevious =>
    split
    · exact meets_raise fun _ _ _ ↦ trivial
    · next hdigest =>
      refine meets_ret fun w _ hw ↦ ?_
      obtain ⟨a, ha, hkey, hevents⟩ := hrec.receipt hprevious
      have hsame : a.events = input :=
        options.digest_injective (hevents.trans (not_not.mp hdigest))
      exact ⟨a, hw.log.subset ha, hkey, hsame⟩
  · next habsent =>
    refine Yields.seq (since_permanent w₀) (yields_observe hrec.wellFormed.distinct) fun o ho ↦ ?_
    refine Yields.seq (since_permanent w₀) (yields_request rfl) fun a _ ↦ ?_
    refine Yields.seq (since_permanent w₀) (yields_ofExcept fun _ _ ↦ trivial)
      fun anchors (_ : True) ↦ ?_
    refine Meets.bind (meets_plan hinv hread ho input _ anchors) fun r ↦ ?_
    obtain ⟨value, admission⟩ := r
    have hperm : (options.setting D).Permanent fun w ↦ w₀.Since w ∧ w.Issued value :=
      fun _ _ _ _ hs ht hg h ↦ ⟨since_permanent w₀ hs ht hg h.1,
        issued_permanent value hs ht hg h.2⟩
    intro w hw hpost
    refine Yields.seq hperm ?_ (fun _ (_ : True) ↦ ?_) w hw hpost.1
    · unfold admitInput
      split
      · exact yields_ret trivial
      · exact yields_attempt rfl
    · refine Meets.catching (U := fun _ _ ↦ True)
        (Meets.bind (meets_accept hp hread habsent hpost.2)
        fun _ ↦ meets_ret fun _ _ h ↦ h) fun error ↦ ?_
      split
      · next hretry =>
        rw [Bool.and_eq_true] at hretry
        exact hrest (by simpa using hretry.2)
      · exact meets_raise fun _ _ _ ↦ trivial

/-- An acknowledged request was admitted. -/
theorem meets_events {idempotencyKey : String} {input : List SessionInput}
    (hp : p.2 = .events idempotencyKey input) :
    (options.setting D).Meets p (fun _ ↦ True) (options.events idempotencyKey input)
      (fun _ ↦ options.Admitted idempotencyKey input) fun _ _ ↦ True := by
  have hall (attempts : ℕ) : (options.setting D).Meets p (fun _ ↦ True)
      (options.eventsAttempts (options.receiptKey idempotencyKey) input (attempts + 1))
      (fun _ ↦ options.Admitted idempotencyKey input) fun _ _ ↦ True := by
    induction attempts with
    | zero => exact meets_attempt hp 0 fun h ↦ absurd rfl h
    | succ attempts ih => exact meets_attempt hp (attempts + 1) fun _ ↦ ih
  exact hall 9

/-! ## The service

The callers put together, with what each has achieved when it ends. -/

/-- What an ended call has achieved. -/
def Achieved (options : SessionOptions) : Call → Unit → SessionWorld → Prop
  | .events idempotencyKey input, _ => options.Admitted idempotencyKey input
  | _, _ => fun _ ↦ True

theorem meets_body (p : ℕ × Call) :
    (options.setting D).Meets p (fun _ ↦ True) (options.body p.2) (options.Achieved p.2)
      fun _ _ ↦ True := by
  obtain ⟨pid, call⟩ := p
  cases call with
  | events idempotencyKey input => exact meets_events rfl
  | dispatch => exact yields_dispatch fun _ _ h ↦ by cases h
  | update input =>
    exact Yields.bind (yields_update (fun _ _ h ↦ by cases h) input) fun _ _ ↦ yields_ret trivial
  | completeTurn turnId => exact yields_completeTurn (fun _ _ h ↦ by cases h) turnId
  | recoverPi => exact yields_recoverPi fun _ _ h ↦ by cases h

theorem verified {start : SessionWorld} (hstart : options.Inv start) :
    (options.setting D).Verified start options.Achieved fun _ _ _ ↦ True where
  init := hstart
  body p := (meets_body p).pre fun _ _ _ ↦ trivial
  post_stable p a := by
    obtain ⟨pid, call⟩ := p
    cases call with
    | events idempotencyKey input => exact (admitted_permanent idempotencyKey input).stable
    | _ => exact stable_true
  fail_stable _ _ := stable_true

end SessionOptions

end RatThings
