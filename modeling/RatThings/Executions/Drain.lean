import RatThings.Executions.CommandsOnce

/-!
# Draining the commands of an execution

A drain reads the commands page by page, while others create, claim and remove them. Each queued
command is claimed, performed and responded to, and a requester asks again until there is a response
or the deadline has passed. This module follows the three calls and proves what they promise.

## What a drain maintains

A command which was queued when the drain began, and still is, comes after its cursor (`Swept`),
which is the same as being on the page it has read or behind it (`Paged`). A cursor that was removed
sends the drain back to the beginning, where this is trivially so. When there are no more pages,
every command that was queued is passed: it is settled, or the drain was refused it.

A claim can be refused although the command is still queued, when the transactions of two drains
run into each other: the store reports a conflict then, and the drain goes on. So at the end of a
drain a command is claimed, or some caller was refused it, and that is all the drain promises.

## What a requester is told

`Answered` ties what the requester returns to the effect of the command that it created: the
response is that of the one effect, or the command has ended without one.
-/

namespace RatThings

open Concurrent Service Setting

/-! ## Pages

The commands are listed by the time of their creation and their id. Both stay as they are, so a
command behind a cursor stays behind it. -/

instance : IsTrans SavedCommand SavedCommand.precedes :=
  ⟨fun _ _ _ (h : toLex _ ≤ toLex _) (h' : toLex _ ≤ toLex _) ↦ le_trans h h'⟩

instance : Std.Total SavedCommand.precedes :=
  ⟨fun left right ↦ le_total (toLex (left.createdAt, left.id)) (toLex (right.createdAt, right.id))⟩

namespace CommandWorld

variable {w w' : CommandWorld} {id runId : String} {saved : SavedCommand} {r : CommandRecord}
  {cursor : Option String}

theorem live_eq_some : w.live id = some saved ↔ ∃ r, w.commands id = some r ∧
    r.deleted = false ∧ saved = ⟨id, r.createdAt, r.revision, r.value⟩ := by
  rw [live, Option.bind_eq_some_iff]
  refine exists_congr fun r ↦ and_congr_right fun _ ↦ ?_
  by_cases hdeleted : r.deleted = true
  · simp [hdeleted]
  · simp [hdeleted, eq_comm]

theorem live_id (h : w.live id = some saved) : saved.id = id := by
  obtain ⟨r, -, -, rfl⟩ := live_eq_some.mp h
  rfl

theorem mem_listed : saved ∈ w.listed runId ↔
    saved.id ∈ w.ids ∧ w.live saved.id = some saved ∧ saved.value.target.runId = runId := by
  rw [listed, List.mem_insertionSort, List.mem_filter, List.mem_filterMap, decide_eq_true_iff]
  constructor
  · rintro ⟨⟨id, hid, hlive⟩, hrun⟩
    rw [live_id hlive]
    exact ⟨hid, hlive, hrun⟩
  · rintro ⟨hid, hlive, hrun⟩
    exact ⟨⟨saved.id, hid, hlive⟩, hrun⟩

theorem nodup_listed (hids : w.ids.Nodup) : (w.listed runId).Nodup := by
  refine (List.perm_insertionSort _ _).nodup_iff.mpr (List.Nodup.filter _ ?_)
  refine hids.filterMap fun a a' b hb hb' ↦ ?_
  exact (live_id hb).symm.trans (live_id hb')

/-- A command comes after the cursor: the place of both is theirs for ever. -/
def Behind (cursor id : String) (w : CommandWorld) : Prop :=
  ∃ last r, w.commands cursor = some last ∧ w.commands id = some r ∧
    ¬ toLex (r.createdAt, id) ≤ toLex (last.createdAt, cursor)

theorem Behind.since {cursor : String} (h : w.Behind cursor id) (hs : w.Since w') :
    w'.Behind cursor id := by
  obtain ⟨last, r, hlast, hr, hle⟩ := h
  obtain ⟨last', hlast', hp⟩ := hs.records cursor last hlast
  obtain ⟨r', hr', hp'⟩ := hs.records id r hr
  exact ⟨last', r', hlast', hr', by rwa [hp.createdAt, hp'.createdAt]⟩

theorem isAfter_of_behind (hr : w.commands id = some r)
    (h : ∀ last, cursor = some last → w.Behind last id) :
    w.isAfter cursor ⟨id, r.createdAt, r.revision, r.value⟩ = true := by
  cases cursor with
  | none => rfl
  | some last =>
    obtain ⟨l, r', hl, hr', hle⟩ := h last rfl
    rw [hr] at hr'
    cases hr'
    simp only [isAfter, hl, Option.bind_some, Option.map_some, SavedCommand.precedes]
    exact decide_eq_true hle

/-- What a page shows was there, and what it does not show comes after it. -/
theorem page_complete (hw : w.Consistent) (hr : w.commands id = some r)
    (hdeleted : r.deleted = false) (hrun : r.value.target.runId = runId)
    (hcursor : ∀ last, cursor = some last → w.Behind last id) :
    (∃ saved ∈ (w.page runId cursor).data, saved.id = id) ∨
      (w.page runId cursor).hasMore = true ∧ (w.page runId cursor).data ≠ [] ∧
        ∀ last, (w.page runId cursor).data.getLast? = some last → w.Behind last.id id := by
  let saved : SavedCommand := ⟨id, r.createdAt, r.revision, r.value⟩
  let found := (w.listed runId).filter (w.isAfter cursor)
  have hfound : saved ∈ found := by
    refine List.mem_filter.mpr ⟨mem_listed.mpr ⟨?_, ?_, hrun⟩, isAfter_of_behind hr hcursor⟩
    · rw [hw.listed, hr]
      rfl
    · exact live_eq_some.mpr ⟨r, hr, hdeleted, rfl⟩
  have hsorted : found.Pairwise SavedCommand.precedes :=
    (List.pairwise_insertionSort _ _).filter _
  have hnodup : found.Nodup := (nodup_listed hw.ids).filter _
  have hsplit : found = found.take 100 ++ found.drop 100 := (List.take_append_drop 100 found).symm
  rw [hsplit, List.mem_append] at hfound
  rcases hfound with hshown | hrest
  · exact .inl ⟨saved, hshown, rfl⟩
  -- The command is behind the page, so the page is full and there is more.
  have hlength : 100 < found.length := by
    have hpos := List.length_pos_of_mem hrest
    rw [List.length_drop] at hpos
    omega
  refine .inr ⟨decide_eq_true hlength, ?_, fun last hlast ↦ ?_⟩
  · intro hnil
    have hzero : (found.take 100).length = 0 := by
      rw [show found.take 100 = [] from hnil]
      rfl
    rw [List.length_take] at hzero
    omega
  have hmem : last ∈ found.take 100 := List.mem_of_getLast? hlast
  have hlive := (mem_listed.mp (List.mem_filter.mp (List.mem_of_mem_take hmem)).1).2.1
  obtain ⟨l, hl, -, hlast'⟩ := live_eq_some.mp hlive
  refine ⟨l, r, hl, hr, fun hle ↦ ?_⟩
  rw [hsplit, List.pairwise_append] at hsorted
  have hle' : toLex (last.createdAt, last.id) ≤ toLex (r.createdAt, id) :=
    hsorted.2.2 last hmem saved hrest
  have hcreated : last.createdAt = l.createdAt := by rw [hlast']
  rw [hcreated] at hle'
  have hid : id = last.id := congrArg (·.2) (toLex_inj.mp (le_antisymm hle hle'))
  have hsame : last = saved := by
    rw [← hid, hr] at hl
    cases hl
    rw [hlast', ← hid]
  exact List.disjoint_take_drop hnodup le_rfl (hsame ▸ hmem) hrest

theorem seen_of_page (hw : w.Consistent) (h : saved ∈ (w.page runId cursor).data) :
    w.Seen saved := by
  have hlive := (mem_listed.mp (List.mem_filter.mp (List.mem_of_mem_take h)).1).2.1
  obtain ⟨r, hr, hdeleted, hsaved⟩ := live_eq_some.mp hlive
  have hrecord : r = ⟨saved.createdAt, saved.revision, saved.value, false⟩ := by
    rw [hsaved, ← hdeleted]
  refine ⟨fun hqueued ↦ ?_, r, hr, by rw [← hrecord]; exact .refl r⟩
  rw [hsaved] at hqueued ⊢
  exact (hw.queued saved.id r hr hqueued).1

end CommandWorld

/-- A write took effect, or changed nothing; it is refused where its condition fails, and where it
ran into another transaction, which is remembered. -/
theorem settleWrite_cases {pid : ℕ} {id : String} {fate : Fate} {next : Option CommandWorld}
    {w w' : CommandWorld} {reply : Reply} (h : settleWrite pid id fate next w = (reply, w')) :
    (next = some w' ∧ reply ≠ .conflict) ∨
      (w' = w ∧ reply ≠ .done ∧ (reply = .conflict → next = none)) ∨
        (w' = w.refuse pid id ∧ reply = .conflict) := by
  unfold settleWrite at h
  split at h
  · cases h
    exact .inr (.inr ⟨rfl, rfl⟩)
  · next hkept =>
    rcases Fate.settle_cases h with hdone | ⟨hsame, hne⟩
    · exact .inl hdone
    · refine .inr (.inl ⟨hsame, hne, ?_⟩)
      rintro rfl
      cases next with
      | none => rfl
      | some t =>
        cases fate with
        | refused => simp at hkept
        | _ => cases h

/-! ## The calls -/

namespace ExecutionCommandService

variable {requestBytes : ExecutionCommandRequest → ℕ} {p : ℕ × Call} {saved claimed : SavedCommand}
  {target : ExecutionCommandTarget} {value : ExecutionCommand} {P : CommandWorld → Prop} {β : Type}

def setting (requestBytes : ExecutionCommandRequest → ℕ) :
    Setting CommandWorld CommandStoreEffect CommandStoreEffect.Answer String
      (Option CommandResponse) Call CommandChoice where
  service := service requestBytes
  discipline := .free
  inv := CommandWorld.Consistent
  guar p _ w w' := w.Step p.1 w'

theorem permanent_of_since (h : ∀ {w w' : CommandWorld}, P w → w.Since w' → P w') :
    (setting requestBytes).Permanent P :=
  fun _ _ _ _ _ _ hg hp ↦ h hp hg.since

theorem permanent_seen : (setting requestBytes).Permanent (CommandWorld.Seen saved) :=
  permanent_of_since CommandWorld.Seen.since

theorem permanent_settled {id : String} :
    (setting requestBytes).Permanent (CommandWorld.Settled id) :=
  permanent_of_since CommandWorld.Settled.since

theorem permanent_passed {q : ℕ} {id : String} :
    (setting requestBytes).Permanent (CommandWorld.Passed q id) :=
  permanent_of_since CommandWorld.Passed.since

theorem permanent_ended {id : String} :
    (setting requestBytes).Permanent (CommandWorld.Ended id value) :=
  permanent_of_since CommandWorld.Ended.since

theorem stable_claims : (setting requestBytes).Stable p (CommandWorld.Claims p.1 claimed) :=
  fun _ _ _ _ hq _ _ hg hp ↦ hp.step hq hg

theorem stable_owns : (setting requestBytes).Stable p (CommandWorld.Owns p.1 claimed) :=
  fun _ _ _ _ hq _ _ hg hp ↦ hp.step hq hg

theorem stable_clock {now : ℕ} :
    (setting requestBytes).Stable p fun w ↦ w.clocks p.1 = now :=
  fun _ _ _ _ hq _ _ hg hp ↦ (hg.clocks p.1 (Ne.symm hq)).trans hp

/-- Reading the clock is remembered, and changes nothing else. -/
theorem meets_now {T : String → CommandWorld → Prop} (hP : (setting requestBytes).Stable p P)
    (hclock : ∀ w now, P w → P { w with clocks := Function.update w.clocks p.1 now }) :
    (setting requestBytes).Meets p P (Prog.perform CommandStoreEffect.now : CommandProg ℕ)
      (fun now w ↦ P w ∧ w.clocks p.1 = now) T := by
  refine meets_perform hP fun {w x a w'} hinv hp _ ha ↦ ?_
  cases ha
  refine ⟨⟨hinv.ids, hinv.listed, hinv.queued, hinv.claimed, hinv.claimants, hinv.requesters,
    hinv.answered, hinv.responses, hinv.once, hinv.effects⟩, ?_, hclock w _ hp,
      Function.update_self ..⟩
  exact ⟨⟨fun _ r hr ↦ ⟨r, hr, .refl r⟩, fun _ _ h ↦ h, fun _ _ h ↦ h, List.Subset.refl _,
      List.Subset.refl _⟩, fun _ v hv ↦ ⟨v, hv, .refl v⟩, fun _ _ _ h ↦ ⟨rfl, h, fun _ he _ ↦ he⟩,
    fun q hq ↦ Function.update_of_ne hq ..⟩

theorem yields_now : (setting requestBytes).Yields p
    (Prog.perform CommandStoreEffect.now : CommandProg ℕ) fun _ ↦ True :=
  (meets_now stable_true fun _ _ h ↦ h).conseq (fun _ _ h ↦ h) (fun _ _ _ _ ↦ trivial)
    fun _ _ _ h ↦ h

theorem yields_id : (setting requestBytes).Yields p
    (Prog.perform CommandStoreEffect.id : CommandProg String) fun _ ↦ True := by
  refine yields_perform fun {w x a w'} hinv _ _ ha ↦ ?_
  simp only [setting, service, handleCommand] at ha
  split at ha
  · cases ha
  · cases ha
    exact ⟨⟨hinv.ids, hinv.listed, hinv.queued, hinv.claimed, hinv.claimants, hinv.requesters,
      hinv.answered, hinv.responses, hinv.once, hinv.effects⟩,
      ⟨⟨fun _ r hr ↦ ⟨r, hr, .refl r⟩, fun _ _ h ↦ h, fun _ _ h ↦ h, List.Subset.refl _,
          List.Subset.refl _⟩, fun _ v hv ↦ ⟨v, hv, .refl v⟩, fun _ _ _ h ↦ ⟨rfl, h,
            fun _ he _ ↦ he⟩, fun _ _ ↦ rfl⟩,
      trivial⟩

theorem yields_pause : (setting requestBytes).Yields p
    (Prog.perform CommandStoreEffect.pause : CommandProg Unit) fun _ ↦ True := by
  refine yields_perform fun {w x a w'} hinv _ _ ha ↦ ?_
  cases ha
  exact ⟨hinv, .refl _ _, trivial⟩

theorem meets_stop {Q : β → CommandWorld → Prop} {T : String → CommandWorld → Prop} :
    (setting requestBytes).Meets p (fun _ ↦ True) (stop : CommandProg β) Q T :=
  meets_call (fun _ _ ↦ True) stable_true (fun _ _ _ ha ↦ (nomatch ha)) nofun

/-- A write that has to succeed. -/
theorem meets_settled {reply : Reply} (h : ∀ w, P w → reply = .done → P w) :
    (setting requestBytes).Meets p P (settled reply) (fun _ w ↦ P w ∧ reply = .done)
      fun _ _ ↦ True := by
  cases reply with
  | done => exact meets_ret fun _ _ hp ↦ ⟨hp, rfl⟩
  | conflict => exact meets_raise fun _ _ _ ↦ trivial
  | unknown => exact meets_raise fun _ _ _ ↦ trivial

/-! ### Claiming and performing

The claim decides. After it the command is the caller's own, and the effect and the response
follow from what it knows, whatever the other callers do. -/

theorem meets_replace (hmoves : saved.value.Moves value) (hqueued : saved.value.state = .queued)
    (hne : value.state ≠ .queued) :
    (setting requestBytes).Meets p (CommandWorld.Seen saved)
      (Prog.perform (CommandStoreEffect.replace saved value) : CommandProg Reply)
      (fun reply w ↦ (reply = .conflict → CommandWorld.Passed p.1 saved.id w) ∧
        (reply = .done → CommandWorld.Seen { saved with
            revision := saved.revision + 1, value := value } w ∧
          CommandWorld.Settled saved.id w ∧
          (value.state = .claimed → CommandWorld.Owns p.1 { saved with
            revision := saved.revision + 1, value := value } w)))
      fun _ _ ↦ True := by
  refine meets_perform permanent_seen.stable fun {w x a w'} hinv hseen _ ha ↦ ?_
  rcases settleWrite_cases (Option.some.inj ha) with
    ⟨hreplace, hreply⟩ | ⟨rfl, hreply, hconflict⟩ | ⟨rfl, rfl⟩
  · obtain ⟨hw', hstep, hrecord, hclaim⟩ :=
      CommandWorld.step_replace hinv hseen hmoves hqueued hne hreplace
    refine ⟨hw', hstep, fun h ↦ absurd h hreply, fun _ ↦ ⟨?_, ⟨_, hrecord, hne⟩, fun hclaimed ↦ ?_⟩⟩
    · exact ⟨fun hno ↦ absurd hno hne, _, hrecord, .refl _⟩
    · obtain ⟨hclaimant, hnone⟩ := hclaim hclaimed
      exact ⟨⟨hrecord, hclaimed, hclaimant⟩, hnone⟩
  · exact ⟨hinv, .refl _ _, fun h ↦ .inl (hseen.settled hinv (hconflict h)),
      fun h ↦ absurd h hreply⟩
  · exact ⟨CommandWorld.consistent_refuse hinv, CommandWorld.step_refuse,
      fun _ ↦ CommandWorld.passed_refuse, nofun⟩

theorem meets_respond {P : CommandWorld → Prop} (hP : (setting requestBytes).Stable p P)
    (hmoves : claimed.value.Moves value) (hne : claimed.value.state ≠ .queued)
    (hseen : ∀ w, P w → CommandWorld.Seen claimed w)
    (hended : ∀ w, P w → CommandWorld.Ended claimed.id value w)
    (hfree : ∀ w, w.Consistent → P w → ∀ q, q ≠ p.1 → w.claimants claimed.id ≠ some q) :
    (setting requestBytes).Meets p P (respond claimed value) (fun _ _ ↦ True)
      fun _ _ ↦ True := by
  refine Meets.bind (M := fun _ _ ↦ True) ?_ fun reply ↦ (meets_settled fun _ h _ ↦ h).conseq
    (fun _ _ _ ↦ trivial) (fun _ _ _ _ ↦ trivial) fun _ _ _ h ↦ h
  refine meets_perform hP fun {w x a w'} hinv hp _ ha ↦ ?_
  rcases settleWrite_cases (Option.some.inj ha) with ⟨hrespond, -⟩ | ⟨rfl, -, -⟩ | ⟨rfl, rfl⟩
  · obtain ⟨hw', hstep⟩ := CommandWorld.step_respond hinv (hseen w hp) hmoves hne (hended w hp)
      (hfree w hinv hp) hrespond
    exact ⟨hw', hstep, trivial⟩
  · exact ⟨hinv, .refl _ _, trivial⟩
  · exact ⟨CommandWorld.consistent_refuse hinv, CommandWorld.step_refuse, trivial⟩

/-- The owner of a command performs it once, before its deadline, and knows how it ended. -/
theorem meets_execute (hsame : sameExecution claimed.value.target target = true)
    (hstate : claimed.value.state = .claimed) :
    (setting requestBytes).Meets p (CommandWorld.Owns p.1 claimed) (execute target claimed)
      (fun value w ↦ w.Claims p.1 claimed ∧ CommandWorld.Ended claimed.id value w ∧
        claimed.value.Moves value) fun _ _ ↦ True := by
  refine Meets.catching (U := fun _ ↦ CommandWorld.Claims p.1 claimed) ?_ fun message ↦ ?_
  · refine Meets.bind (meets_now stable_owns fun _ _ h ↦ h) fun now ↦ ?_
    split
    · exact meets_raise fun _ _ h ↦ h.1.1
    next hdeadline =>
      refine Meets.bind (M := fun outcome w ↦ w.Claims p.1 claimed ∧ ∃ e ∈ w.effects,
        e.id = claimed.id ∧ e.outcome = outcome) ?_ fun outcome ↦ ?_
      · refine meets_perform (stable_owns.and stable_clock) fun {w x a w'} hinv hp _ ha ↦ ?_
        cases ha
        exact CommandWorld.step_perform hinv hp.1 hsame (by rw [hp.2]; omega)
      · cases outcome with
        | error message => exact meets_raise fun _ _ h ↦ h.1
        | ok response =>
          refine meets_ret fun w _ ⟨hclaims, e, he, hid, houtcome⟩ ↦ ⟨hclaims, ?_, ?_⟩
          · exact .inr ⟨response, rfl, e, he, hid, houtcome⟩
          · exact ⟨rfl, rfl, rfl, hstate ▸ .complete response⟩
  · exact meets_ret fun _ _ h ↦ ⟨h, .inl ⟨_, rfl⟩, rfl, rfl, rfl, hstate ▸ .fail _⟩

/-! ### Draining

The induction is on the fuel of the loop over the pages, with `Swept` as its invariant; the inner
loop is over the commands of one page. -/

/-- Only what is queued is decided about, and what is executed is claimed first. -/
theorem claimCommand_spec (command : ExecutionCommand) (target : ExecutionCommandTarget) (now : ℕ) :
    match claimCommand command target now with
    | .ignore => command.state ≠ .queued
    | .reject _ => command.state = .queued
    | .execute value => command.state = .queued ∧ sameExecution command.target target = true ∧
        value = { command with state := .claimed } := by
  rw [claimCommand]
  by_cases hstate : command.state = .queued
  · rw [if_neg (not_not.mpr hstate)]
    by_cases hsame : sameExecution command.target target = true
    · rw [if_neg (by simp [hsame])]
      by_cases hdeadline : command.deadline ≤ now
      · rw [if_pos hdeadline]
        exact hstate
      rw [if_neg hdeadline]
      by_cases hvalid : validExecutionCommand target command.request = true
      · rw [if_neg (by simp [hvalid])]
        exact ⟨hstate, hsame, rfl⟩
      · rw [if_pos (by simpa using hvalid)]
        exact hstate
    · rw [if_pos (by simpa using hsame)]
      exact hstate
  · rw [if_pos hstate]
    exact hstate

/-- A command that was read is not queued any more when the drainer is done with it, unless the
drainer was refused it. -/
theorem meets_drainOne :
    (setting requestBytes).Meets p (CommandWorld.Seen saved) (drainOne target saved)
      (fun _ ↦ CommandWorld.Passed p.1 saved.id) fun _ _ ↦ True := by
  refine yields_now.seq permanent_seen fun now _ ↦ ?_
  -- The decision is to leave the command, to reject it, or to claim and execute it.
  have hspec := claimCommand_spec saved.value target now
  split
  · next hdecision =>
    rw [hdecision] at hspec
    refine meets_ret fun w _ ⟨_, r, hr, hp⟩ ↦ .inl ⟨r, hr, ?_⟩
    rwa [hp.settled hspec]
  · next message hdecision =>
    rw [hdecision] at hspec
    refine Meets.bind (meets_replace ⟨rfl, rfl, rfl, hspec ▸ .reject message⟩ hspec (by simp))
      fun reply ↦ ?_
    cases reply with
    | conflict => exact meets_ret fun _ _ h ↦ h.1 rfl
    | unknown => exact meets_raise fun _ _ _ ↦ trivial
    | done =>
      let rejected : SavedCommand := { saved with
        revision := saved.revision + 1, value := { saved.value with state := .failed message } }
      have hrespond : (setting requestBytes).Meets p (CommandWorld.Seen rejected)
          (respond rejected rejected.value) (fun _ _ ↦ True) fun _ _ ↦ True := by
        refine meets_respond permanent_seen.stable (.refl _) (by simp [rejected]) (fun _ h ↦ h)
          (fun _ _ ↦ .inl ⟨message, rfl⟩) fun w hw ⟨_, r, hr, hp⟩ q _ hq ↦ ?_
        have hfailed : r.value.state = .failed message := hp.settled (by simp [rejected])
        rw [hw.unclaimed hr (by simp [hfailed])] at hq
        cases hq
      exact (hrespond.frame permanent_settled).conseq (fun _ _ h ↦ ⟨(h.2 rfl).2.1, (h.2 rfl).1⟩)
        (fun _ _ _ h ↦ .inl h.1) fun _ _ _ _ ↦ trivial
  · next value hdecision =>
    rw [hdecision] at hspec
    obtain ⟨hqueued, hsame, rfl⟩ := hspec
    refine Meets.bind (meets_replace ⟨rfl, rfl, rfl, hqueued ▸ .claim⟩ hqueued (by simp))
      fun reply ↦ ?_
    cases reply with
    | conflict => exact meets_ret fun _ _ h ↦ h.1 rfl
    | unknown => exact meets_raise fun _ _ _ ↦ trivial
    | done =>
      let claimed : SavedCommand := { saved with
        revision := saved.revision + 1, value := { saved.value with state := .claimed } }
      have hwork : (setting requestBytes).Meets p (CommandWorld.Owns p.1 claimed)
          (execute target claimed >>= respond claimed) (fun _ _ ↦ True) fun _ _ ↦ True := by
        refine Meets.bind (meets_execute hsame rfl) fun value ↦ ?_
        refine fun w hinv hp ↦ meets_respond (P := fun w ↦ w.Claims p.1 claimed ∧
          CommandWorld.Ended claimed.id value w) (stable_claims.and permanent_ended.stable) hp.2.2
          (by simp [claimed]) (fun w h ↦ ?_) (fun _ h ↦ h.2) (fun w _ h q hq hclaimant ↦ ?_) w hinv
          ⟨hp.1, hp.2.1⟩
        · exact ⟨fun hno ↦ absurd hno (by simp [claimed]), _, h.1.1, .refl _⟩
        · rw [h.1.2.2] at hclaimant
          cases hclaimant
          exact hq rfl
      exact (hwork.frame permanent_settled).conseq (fun _ _ h ↦ ⟨(h.2 rfl).2.1, (h.2 rfl).2.2 rfl⟩)
        (fun _ _ _ h ↦ .inl h.1) fun _ _ _ _ ↦ trivial

theorem permanent_all {saveds : List SavedCommand} {F : SavedCommand → CommandWorld → Prop}
    (h : ∀ saved, (setting requestBytes).Permanent (F saved)) :
    (setting requestBytes).Permanent fun w ↦ ∀ saved ∈ saveds, F saved w :=
  fun _ _ _ _ hs ht hg hp saved hmem ↦ h saved hs ht hg (hp saved hmem)

theorem meets_drainAll (saveds : List SavedCommand) :
    (setting requestBytes).Meets p (fun w ↦ ∀ saved ∈ saveds, w.Seen saved)
      (drainAll target saveds) (fun _ w ↦ ∀ saved ∈ saveds, w.Passed p.1 saved.id)
      fun _ _ ↦ True := by
  induction saveds with
  | nil => exact meets_ret fun _ _ _ saved hmem ↦ (nomatch hmem)
  | cons saved rest ih =>
    refine Meets.bind (M := fun _ w ↦ (∀ saved ∈ rest, w.Seen saved) ∧ w.Passed p.1 saved.id) ?_
      fun _ ↦ ?_
    · exact (meets_drainOne.frame (permanent_all fun _ ↦ permanent_seen)).conseq
        (fun _ _ h ↦ ⟨fun s hs ↦ h s (List.mem_cons_of_mem _ hs), h saved List.mem_cons_self⟩)
        (fun _ _ _ h ↦ h) fun _ _ _ _ ↦ trivial
    · refine (ih.frame permanent_passed).conseq (fun _ _ h ↦ ⟨h.2, h.1⟩) (fun _ w _ h s hs ↦ ?_)
        fun _ _ _ _ ↦ trivial
      rcases List.mem_cons.mp hs with rfl | hs
      · exact h.1
      · exact h.2 s hs

/-- The commands of this Run that are queued in this state. -/
def Queued (runId : String) (w : CommandWorld) (id : String) : Prop :=
  ∃ r, w.commands id = some r ∧ r.value.target.runId = runId ∧ r.value.state = .queued

/-- What was queued when the drain began, and has not been dealt with, comes after the cursor. -/
def Swept (begun : CommandWorld) (pid : ℕ) (runId : String) (cursor : Option String)
    (w : CommandWorld) : Prop :=
  begun.Since w ∧ ∀ id, Queued runId begun id →
    w.Passed pid id ∨ ∀ last, cursor = some last → w.Behind last id

/-- What was queued when the drain began, and has not been dealt with, is on the page or comes after
it. -/
def Paged (begun : CommandWorld) (pid : ℕ) (runId : String) (page : CommandPage)
    (w : CommandWorld) : Prop :=
  begun.Since w ∧ (∀ saved ∈ page.data, w.Seen saved) ∧ ∀ id, Queued runId begun id →
    w.Passed pid id ∨ (∃ saved ∈ page.data, saved.id = id) ∨
      page.hasMore = true ∧ page.data ≠ [] ∧
        ∀ last, page.data.getLast? = some last → w.Behind last.id id

variable {begun : CommandWorld} {runId : String} {cursor : Option String} {page : CommandPage}

theorem permanent_swept : (setting requestBytes).Permanent (Swept begun p.1 runId cursor) := by
  refine permanent_of_since fun {w w'} h hs ↦ ⟨h.1.trans hs, fun id hid ↦ ?_⟩
  exact (h.2 id hid).imp (fun h ↦ h.since hs) fun h last hlast ↦ (h last hlast).since hs

theorem permanent_paged : (setting requestBytes).Permanent (Paged begun p.1 runId page) := by
  refine permanent_of_since fun {w w'} h hs ↦ ⟨h.1.trans hs, fun saved hsaved ↦
    (h.2.1 saved hsaved).since hs, fun id hid ↦ ?_⟩
  exact (h.2.2 id hid).imp (fun h ↦ h.since hs) fun h ↦ h.imp_right fun h ↦
    ⟨h.1, h.2.1, fun last hlast ↦ (h.2.2 last hlast).since hs⟩

theorem Swept.restart {w : CommandWorld} (h : Swept begun p.1 runId cursor w) :
    Swept begun p.1 runId none w :=
  ⟨h.1, fun _ _ ↦ .inr nofun⟩

theorem Swept.paged {w : CommandWorld} (hw : w.Consistent) (h : Swept begun p.1 runId cursor w) :
    Paged begun p.1 runId (w.page runId cursor) w := by
  refine ⟨h.1, fun saved hsaved ↦ CommandWorld.seen_of_page hw hsaved, fun id hid ↦ ?_⟩
  have hbegun := h.2 id hid
  obtain ⟨r₀, hr₀, hrun, -⟩ := hid
  obtain ⟨r, hr, hp⟩ := h.1.records id r₀ hr₀
  by_cases hqueued : r.value.state = .queued
  · rcases hbegun with hsettled | hbehind
    · exact .inl hsettled
    · exact .inr (CommandWorld.page_complete hw hr (hw.queued id r hr hqueued).2
        (by rw [hp.target, hrun]) hbehind)
  · exact .inl (.inl ⟨r, hr, hqueued⟩)

theorem meets_list :
    (setting requestBytes).Meets p (Swept begun p.1 runId cursor)
      (Prog.perform (CommandStoreEffect.list runId cursor) :
        CommandProg (Except ListFailure CommandPage))
      (fun answer w ↦ Swept begun p.1 runId cursor w ∧
        ∀ page, answer = .ok page → Paged begun p.1 runId page w) fun _ _ ↦ True := by
  refine meets_perform permanent_swept.stable fun {w x a w'} hinv hp _ ha ↦ ?_
  simp only [setting, service, handleCommand] at ha
  split at ha
  · cases ha
    exact ⟨hinv, .refl _ _, hp, nofun⟩
  split at ha
  · cases ha
    refine ⟨hinv, .refl _ _, hp, fun page hpage ↦ ?_⟩
    cases hpage
    exact Swept.paged hinv hp
  · cases ha
    exact ⟨hinv, .refl _ _, hp, nofun⟩

theorem meets_listPage :
    (setting requestBytes).Meets p (Swept begun p.1 runId cursor) (listPage runId cursor)
      (fun page w ↦ Paged begun p.1 runId page w) fun _ _ ↦ True := by
  refine Meets.bind meets_list fun answer ↦ ?_
  match answer with
  | .ok page => exact meets_ret fun _ _ h ↦ h.2 page rfl
  | .error (.other message) => exact meets_raise fun _ _ _ ↦ trivial
  | .error .cursor =>
    dsimp only
    split
    · exact meets_raise fun _ _ _ ↦ trivial
    refine (Meets.bind meets_list fun answer ↦ ?_).pre fun _ _ h ↦ h.1.restart
    match answer with
    | .ok page => exact meets_ret fun _ _ h ↦ h.2 page rfl
    | .error (.other message) => exact meets_raise fun _ _ _ ↦ trivial
    | .error .cursor => exact meets_raise fun _ _ _ ↦ trivial

/-- A drain that returns has dealt with what was queued when it began. -/
theorem meets_drainPages (patience : ℕ) :
    (setting requestBytes).Meets p (Swept begun p.1 target.runId cursor)
      (drainPages target patience cursor)
      (fun _ w ↦ ∀ id, Queued target.runId begun id → w.Passed p.1 id) fun _ _ ↦ True := by
  induction patience generalizing cursor with
  | zero => exact meets_stop.pre fun _ _ _ ↦ trivial
  | succ patience ih =>
    refine Meets.bind meets_listPage fun page ↦ ?_
    refine Meets.bind (M := fun _ w ↦ Paged begun p.1 target.runId page w ∧
      ∀ saved ∈ page.data, w.Passed p.1 saved.id) ?_ fun _ ↦ ?_
    · exact ((meets_drainAll page.data).frame permanent_paged).conseq (fun _ _ h ↦ ⟨h, h.2.1⟩)
        (fun _ _ _ h ↦ h) fun _ _ _ _ ↦ trivial
    -- What was on the page is not queued any more.
    have hrest : ∀ w, Paged begun p.1 target.runId page w ∧
        (∀ saved ∈ page.data, w.Passed p.1 saved.id) → ∀ id, Queued target.runId begun id →
          w.Passed p.1 id ∨ page.hasMore = true ∧ page.data ≠ [] ∧
            ∀ last, page.data.getLast? = some last → w.Behind last.id id := by
      rintro w ⟨hpaged, hsettled⟩ id hid
      rcases hpaged.2.2 id hid with h | ⟨saved, hsaved, rfl⟩ | h
      · exact .inl h
      · exact .inl (hsettled saved hsaved)
      · exact .inr h
    split
    · next last hlast =>
      split
      · refine ih.pre fun w _ h ↦ ⟨h.1.1, fun id hid ↦ (hrest w h id hid).imp_right fun hmore ↦ ?_⟩
        rintro last' hlast'
        cases hlast'
        exact hmore.2.2 last hlast
      · next hdone =>
        exact meets_ret fun w _ h id hid ↦ (hrest w h id hid).resolve_right fun hmore ↦
          hdone hmore.1
    · next hnone =>
      exact meets_ret fun w _ h id hid ↦ (hrest w h id hid).resolve_right fun hmore ↦
        hmore.2.1 (List.getLast?_eq_none_iff.mp hnone)

/-! ### Requesting

A requester polls the command it has created, and rejects it once its deadline has passed. -/

/-- The command is one that this call created, for this target and request. -/
def Requested (pid : ℕ) (target : ExecutionCommandTarget) (request : ExecutionCommandRequest)
    (id : String) (w : CommandWorld) : Prop :=
  w.requesters id = some pid ∧ ∃ r, w.commands id = some r ∧ r.value.target = target ∧
    r.value.request = request

/-- The response is that of the effect of a command which this call created. -/
def Answered (pid : ℕ) (target : ExecutionCommandTarget) (request : ExecutionCommandRequest)
    (response : CommandResponse) (w : CommandWorld) : Prop :=
  ∃ id, Requested pid target request id w ∧
    ∃ e ∈ w.effects, e.id = id ∧ e.outcome = .ok response

variable {pid : ℕ} {request : ExecutionCommandRequest} {response : CommandResponse} {id : String}

theorem Requested.since {w w' : CommandWorld} (h : Requested pid target request id w)
    (hs : w.Since w') : Requested pid target request id w' := by
  obtain ⟨hrequester, r, hr, htarget, hrequest⟩ := h
  obtain ⟨r', hr', hp⟩ := hs.records id r hr
  exact ⟨hs.requesters id pid hrequester, r', hr', hp.target.trans htarget,
    hp.request.trans hrequest⟩

theorem permanent_requested :
    (setting requestBytes).Permanent (Requested pid target request id) :=
  permanent_of_since Requested.since

theorem permanent_answered :
    (setting requestBytes).Permanent (Answered pid target request response) := by
  refine permanent_of_since fun {w w'} h hs ↦ ?_
  obtain ⟨id, hid, e, he, hfields⟩ := h
  exact ⟨id, hid.since hs, e, hs.effects he, hfields⟩

theorem meets_response :
    (setting requestBytes).Meets p (Requested pid target request id)
      (Prog.perform (CommandStoreEffect.response id) : CommandProg (Option ExecutionCommand))
      (fun saved w ↦ Requested pid target request id w ∧
        ∀ response, saved.bind ExecutionCommand.outcome? = some (.ok response) →
          Answered pid target request response w) fun _ _ ↦ True := by
  refine meets_perform permanent_requested.stable fun {w x a w'} hinv hp _ ha ↦ ?_
  cases ha
  refine ⟨hinv, .refl _ _, hp, fun response hresponse ↦ ?_⟩
  obtain ⟨v, hv, houtcome⟩ := Option.bind_eq_some_iff.mp hresponse
  obtain ⟨r, hr, -⟩ := (hinv.answered id).mp (by rw [hv]; rfl)
  obtain ⟨-, -, -, hend⟩ := hinv.responses id v r hv hr
  rcases hend with ⟨message, hfailed⟩ | ⟨response', hcompleted, e, he, hfields⟩
  · simp [ExecutionCommand.outcome?, hfailed] at houtcome
  · simp only [ExecutionCommand.outcome?, hcompleted, Option.some.injEq, Except.ok.injEq]
      at houtcome
    exact ⟨id, hp, e, he, houtcome ▸ hfields⟩

theorem meets_await (deadline patience : ℕ) :
    (setting requestBytes).Meets p (Requested pid target request id)
      (await id deadline patience) (fun response ↦ Answered pid target request response)
      fun _ _ ↦ True := by
  induction patience with
  | zero => exact meets_stop.pre fun _ _ _ ↦ trivial
  | succ patience ih =>
    refine yields_now.seq permanent_requested fun now _ ↦ ?_
    split
    · exact meets_raise fun _ _ _ ↦ trivial
    refine Meets.bind meets_response fun saved ↦ ?_
    split
    · next outcome houtcome =>
      cases outcome with
      | error message => exact meets_raise fun _ _ _ ↦ trivial
      | ok response => exact meets_ret fun _ _ h ↦ h.2 response houtcome
    · exact (yields_pause.seq permanent_requested fun _ _ ↦ ih).pre fun _ _ h ↦ h.1

/-- A requester is returned a response only if it is that of its own command's effect. -/
theorem meets_request (patience : ℕ) :
    (setting requestBytes).Meets p (fun _ ↦ True)
      (ExecutionCommandService.request requestBytes target request patience)
      (fun response ↦ Answered p.1 target request response) fun _ _ ↦ True := by
  unfold ExecutionCommandService.request
  split
  · exact meets_raise fun _ _ _ ↦ trivial
  split
  · exact meets_raise fun _ _ _ ↦ trivial
  refine yields_now.andThen fun now _ ↦ yields_id.andThen fun id _ ↦ ?_
  refine Meets.bind (M := fun reply w ↦ reply = .done → Requested p.1 target request id w) ?_
    fun reply ↦ ?_
  · refine meets_perform stable_true fun {w x a w'} hinv _ _ ha ↦ ?_
    rcases settleWrite_cases (Option.some.inj ha) with ⟨hcreate, -⟩ | ⟨rfl, hne, -⟩ | ⟨rfl, rfl⟩
    · obtain ⟨hw', hstep, hrequester, r, hr, hvalue⟩ :=
        CommandWorld.step_create hinv rfl hcreate
      exact ⟨hw', hstep, fun _ ↦ ⟨hrequester, r, hr, by rw [hvalue], by rw [hvalue]⟩⟩
    · exact ⟨hinv, .refl _ _, fun hdone ↦ absurd hdone hne⟩
    · exact ⟨CommandWorld.consistent_refuse hinv, CommandWorld.step_refuse, nofun⟩
  · refine Meets.bind (M := fun _ ↦ Requested p.1 target request id)
      ((meets_settled fun _ h _ ↦ h).conseq (fun _ _ h ↦ h) (fun _ _ _ h ↦ h.1 h.2)
        fun _ _ _ h ↦ h) fun _ ↦ meets_await _ patience

/-! ## Every run -/

/-- No command has been requested. -/
def fresh : CommandWorld :=
  ⟨[], fun _ ↦ none, fun _ ↦ none, [], fun _ ↦ none, fun _ ↦ none, fun _ ↦ 0, [], []⟩

theorem consistent_fresh : fresh.Consistent where
  ids := List.nodup_nil
  listed id := by simp [fresh]
  queued _ _ h := nomatch h
  claimed _ _ h := nomatch h
  claimants _ h := nomatch h
  requesters _ h := nomatch h
  answered id := by simp [fresh]
  responses _ _ _ h := nomatch h
  once := List.nodup_nil
  effects _ h := nomatch h

/-- A requester's call, as a whole. -/
theorem meets_body_request (patience : ℕ) :
    (setting requestBytes).Meets p (fun _ ↦ True)
      (body requestBytes (.request target request patience))
      (fun answer w ↦ ∀ response, answer = some response →
        Answered p.1 target request response w) fun _ _ ↦ True := by
  rw [body]
  refine Meets.bind (meets_request patience) fun response ↦ meets_ret fun w _ h response' he ↦ ?_
  cases he
  exact h

/-- A drainer's call, as a whole. -/
theorem meets_body_drain (patience : ℕ) :
    (setting requestBytes).Meets p (fun w ↦ w = begun)
      (body requestBytes (.drain target patience))
      (fun _ w ↦ ∀ id, Queued target.runId begun id → w.Passed p.1 id) fun _ _ ↦ True := by
  rw [body]
  refine Meets.bind ((meets_drainPages patience).pre fun w _ h ↦ ?_) fun _ ↦
    meets_ret fun _ _ h ↦ h
  subst h
  exact ⟨.refl w, fun _ _ ↦ .inr nofun⟩

theorem yields_body (call : Call) :
    (setting requestBytes).Yields p (body requestBytes call) fun _ ↦ True := by
  cases call with
  | request target request patience =>
    exact (meets_body_request patience).conseq (fun _ _ _ ↦ trivial) (fun _ _ _ _ ↦ trivial)
      fun _ _ _ h ↦ h
  | drain target patience =>
    intro w hw _
    exact ((meets_body_drain patience).conseq (fun _ _ h ↦ h) (fun _ _ _ _ ↦ trivial)
      fun _ _ _ h ↦ h) w hw rfl

theorem verified :
    (setting requestBytes).Verified fresh (fun _ _ _ ↦ True) fun _ _ _ ↦ True where
  init := consistent_fresh
  body p := yields_body p.2
  post_stable _ _ := stable_true
  fail_stable _ _ := stable_true

abbrev CommandConfig : Type :=
  Config CommandWorld CommandStoreEffect CommandStoreEffect.Answer String (Option CommandResponse)
    Call

/-- What the service promises about its commands. -/
structure TakeEffectOnce (requestBytes : ExecutionCommandRequest → ℕ) (c : CommandConfig) :
    Prop where
  /-- No command is performed twice. -/
  once : (c.state.effects.map (·.id)).Nodup
  /-- A command is performed as it was requested, for its own execution and before its deadline. -/
  own : ∀ e ∈ c.state.effects, ∃ command, c.state.command? e.id = some command ∧
    sameExecution command.target e.target = true ∧ e.clock < command.deadline ∧
      e.request = command.request
  /-- A step leaves a command as it is, claims or rejects one that is queued, or ends one that is
  claimed. -/
  moves : ∀ ev c', (service requestBytes).step c ev = some c' → ∀ id command,
    c.state.command? id = some command →
      ∃ command', c'.state.command? id = some command' ∧ command.Moves command'
  /-- A response is there for good. -/
  responses : ∀ c', Leads (service requestBytes) .free c c' → ∀ id response,
    c.state.responses id = some response → c'.state.responses id = some response
  /-- What a requester is returned is what came of the effect of its own command. -/
  returned : ∀ pid target request patience response,
    c.procs pid = some (.request target request patience, .ret (some response)) →
      ∃ id command, c.state.requesters id = some pid ∧ c.state.command? id = some command ∧
        command.target = target ∧ command.request = request ∧
          ∃ e ∈ c.state.effects, e.id = id ∧ e.outcome = .ok response
  /-- A drain that returns leaves nothing queued that was queued when it began, except what the
  store refused to let it claim or reject although nobody had changed it. -/
  drained : ∀ pid target patience,
    c.procs pid = some (.drain target patience, body requestBytes (.drain target patience)) →
    ∀ c', Leads (service requestBytes) .free c c' →
      c'.procs pid = some (.drain target patience, .ret none) →
      ∀ id command, c.state.command? id = some command → command.target.runId = target.runId →
        command.state = .queued →
          ∃ command', c'.state.command? id = some command' ∧
            (command'.state ≠ .queued ∨ (pid, id) ∈ c'.state.refusals)

/-- A stored command, as requester and drainers see it. -/
theorem command?_of_stored {w : CommandWorld} {r : CommandRecord} (hw : w.Consistent)
    (h : w.commands id = some r) : ∃ command, w.command? id = some command ∧
      command.target = r.value.target ∧ command.request = r.value.request ∧
      command.deadline = r.value.deadline ∧
      (r.value.state ≠ .queued → command.state ≠ .queued) := by
  unfold CommandWorld.command?
  cases hv : w.responses id with
  | none => exact ⟨r.value, by rw [h]; rfl, rfl, rfl, rfl, fun hne ↦ hne⟩
  | some v =>
    obtain ⟨htarget, hrequest, hdeadline, hend⟩ := hw.responses id v r hv h
    refine ⟨v, rfl, htarget, hrequest, hdeadline, fun _ ↦ ?_⟩
    rcases hend with ⟨message, hstate⟩ | ⟨response, hstate, -⟩
    · simp [hstate]
    · simp [hstate]

/-- What is seen as queued is stored as queued. -/
theorem queued_of_command? {w : CommandWorld} {command : ExecutionCommand} (hw : w.Consistent)
    (h : w.command? id = some command) (hstate : command.state = .queued)
    (hrun : command.target.runId = runId) : Queued runId w id := by
  unfold CommandWorld.command? at h
  cases hv : w.responses id with
  | none =>
    rw [hv, Option.none_or, Option.map_eq_some_iff] at h
    obtain ⟨r, hr, rfl⟩ := h
    exact ⟨r, hr, hrun, hstate⟩
  | some v =>
    rw [hv] at h
    cases h
    obtain ⟨r, hr, -⟩ := (hw.answered id).mp (by rw [hv]; rfl)
    obtain ⟨-, -, -, ⟨message, hend⟩ | ⟨response, hend, -⟩⟩ := hw.responses id command r hv hr
    · rw [hstate] at hend
      cases hend
    · rw [hstate] at hend
      cases hend

/-- A command that a drain was refused is there still. -/
theorem command?_of_since {w w' : CommandWorld} {id : String} {r : CommandRecord}
    (hw : w'.Consistent) (hr : w.commands id = some r) (hs : w.Since w') :
    ∃ command, w'.command? id = some command := by
  obtain ⟨r', hr', -⟩ := hs.records id r hr
  obtain ⟨command, hcommand, -⟩ := command?_of_stored hw hr'
  exact ⟨command, hcommand⟩

/-- Commands take effect at most once, in their own execution, and are answered with what came of
it, in every state of every run. -/
theorem commands_take_effect_once {c : CommandConfig}
    (hc : Reachable (service requestBytes) .free fresh c) : TakeEffectOnce requestBytes c := by
  have hV := @verified requestBytes
  have hsound := hV.reachable hc
  have hinv : c.state.Consistent := hsound.inv
  refine ⟨hinv.once, fun e he ↦ ?_, fun ev c' hstep id command hcommand ↦ ?_,
    fun c' hlead id response hresponse ↦ ?_, fun pid target request patience response hproc ↦ ?_,
    fun pid target patience hproc c' hlead hproc' id command hcommand hrun hstate ↦ ?_⟩
  · obtain ⟨r, hr, -, hsame, hclock, hrequest⟩ := hinv.effects e he
    obtain ⟨command, hcommand, htarget, hrequest', hdeadline, -⟩ := command?_of_stored hinv hr
    exact ⟨command, hcommand, htarget ▸ hsame, hdeadline ▸ hclock, hrequest.trans hrequest'.symm⟩
  · rcases (hV.step hsound (permits_free c ev) hstep).2 with hsame | ⟨p, e, hguar⟩
    · rw [hsame]
      exact ⟨command, hcommand, .refl command⟩
    · exact hguar.moves id command hcommand
  · have hsince : c.state.Since c'.state := hV.future CommandWorld.Since CommandWorld.Since.refl
      CommandWorld.Since.trans (fun _ _ _ _ hg ↦ hg.since) hsound hlead
    exact hsince.responses id response hresponse
  · -- The call is followed from its beginning, so that the command is known to be its own.
    obtain ⟨c₀, hc₀, hbody, hlead⟩ := Reachable.started hc hproc
    obtain ⟨m, hm, hsafe⟩ := hV.follow (Q := fun answer w ↦ ∀ response, answer = some response →
        Answered pid target request response w) (fun _ _ _ _ _ hq hs ht hg h response he ↦
        permanent_answered.stable hq hs ht hg (h response he)) (fun _ ↦ stable_true)
      (hV.reachable hc₀) hbody (meets_body_request patience _ (hV.reachable hc₀).inv trivial) hlead
    rw [hproc] at hm
    cases hm
    obtain ⟨id, ⟨hrequester, r, hr, htarget, hrequest⟩, heffect⟩ := hsafe response rfl
    obtain ⟨command, hcommand, htarget', hrequest', -⟩ := command?_of_stored hinv hr
    exact ⟨id, command, hrequester, hcommand, htarget'.trans htarget, hrequest'.trans hrequest,
      heffect⟩
  · -- What a drain has passed stays passed, also when its answer comes after other commits.
    obtain ⟨m, hm, hsafe⟩ := hV.follow
      (Q := fun _ w ↦ ∀ id, Queued target.runId c.state id → w.Passed pid id)
      (fun _ _ _ _ _ hq hs ht hg h id hid ↦ permanent_passed.stable hq hs ht hg (h id hid))
      (fun _ ↦ stable_true) hsound hproc (meets_body_drain patience _ hinv rfl) hlead
    rw [hproc'] at hm
    cases hm
    have hqueued : Queued target.runId c.state id := queued_of_command? hinv hcommand hstate hrun
    have hinv' : c'.state.Consistent := (hV.leads hsound hlead).inv
    -- It is claimed or settled now, or the store has refused the write that would do it.
    rcases hsafe id hqueued with ⟨r, hr, hne⟩ | hrefused
    · obtain ⟨command', hcommand', -, -, -, hne'⟩ := command?_of_stored hinv' hr
      exact ⟨command', hcommand', .inl (hne' hne)⟩
    · have hsince : c.state.Since c'.state := hV.future CommandWorld.Since CommandWorld.Since.refl
        CommandWorld.Since.trans (fun _ _ _ _ hg ↦ hg.since) hsound hlead
      obtain ⟨r, hr, -⟩ := hqueued
      obtain ⟨command', hcommand'⟩ := command?_of_since hinv' hr hsince
      exact ⟨command', hcommand', .inr hrefused⟩

end ExecutionCommandService

/-! ## Two runs

In the first one both drains find the command queued and one claims it. In the second the two claims
run into each other, both are refused, and both drains end with the command still queued. -/

def sampleTarget : ExecutionCommandTarget := ⟨"run", ⟨.microvm, "host", some "1", none⟩⟩

def sampleCommand : ExecutionCommandRequest := ⟨.get, "/agent-runtime/v1/runs/run/health", none⟩

/-- A command is requested, and the first drain begins. -/
def sampleRequested : List (Event ExecutionCommandService.Call CommandChoice) :=
  [.start 0 (.request sampleTarget sampleCommand 2), .resume 0 {}, .resume 0 { id := "a" },
    .resume 0 {}] ++ [.start 1 (.drain sampleTarget 1)]

/-- Two drains find the command queued. The second to claim it finds it claimed, and the requester
is told what came of it. -/
def sampleCommands : List (Event ExecutionCommandService.Call CommandChoice) :=
  sampleRequested ++ [.start 2 (.drain sampleTarget 1)] ++
  [1, 2, 1, 2, 1, 2, 1, 1, 1, 0, 0].map fun pid ↦ .resume pid {}

/-- The response that was returned in that run is that of the one effect. -/
theorem sampleCommands_answered :
    ∃ c, (ExecutionCommandService.service fun _ ↦ 0).run .free sampleCommands
        (.initial ExecutionCommandService.fresh) = some c ∧
      ∃ id, c.state.requesters id = some 0 ∧
        ∃ e ∈ c.state.effects, e.id = id ∧ e.outcome = .ok ⟨200, "{}"⟩ := by
  have hrun : (((ExecutionCommandService.service fun _ ↦ 0).run .free sampleCommands
      (.initial ExecutionCommandService.fresh)).map fun c ↦ c.outcome 0) =
        some (some (.request sampleTarget sampleCommand 2, some (.ok (some ⟨200, "{}"⟩)))) := by
    decide +kernel
  obtain ⟨c, hc, hended⟩ := Option.map_eq_some_iff.mp hrun
  have honce := ExecutionCommandService.commands_take_effect_once (Service.leads_of_run hc)
  obtain ⟨id, -, hrequester, -, -, -, heffect⟩ :=
    honce.returned 0 _ _ _ _ (Config.procs_of_outcome hended)
  exact ⟨c, hc, id, hrequester, heffect⟩

/-- Two drains find the command queued, and the transactions in which they claim it run into each
other. -/
def sampleContention : List (Event ExecutionCommandService.Call CommandChoice) :=
  [.start 2 (.drain sampleTarget 1), .resume 1 {}, .resume 2 {}, .resume 1 {}, .resume 2 {},
    .resume 1 { fate := .refused }, .resume 2 { fate := .refused }]

/-- Both drains return, and the command that was queued when they began is queued. -/
theorem drained_command_queued :
    ∃ c c' : ExecutionCommandService.CommandConfig,
      Reachable (ExecutionCommandService.service fun _ ↦ 0) .free ExecutionCommandService.fresh c ∧
      c.procs 1 = some (.drain sampleTarget 1,
        ExecutionCommandService.body (fun _ ↦ 0) (.drain sampleTarget 1)) ∧
      Leads (ExecutionCommandService.service fun _ ↦ 0) .free c c' ∧
      c'.procs 1 = some (.drain sampleTarget 1, .ret none) ∧
      c'.procs 2 = some (.drain sampleTarget 1, .ret none) ∧
      ∃ command : ExecutionCommand, c.state.command? "a" = some command ∧
        command.target.runId = sampleTarget.runId ∧ command.state = .queued ∧
        c'.state.command? "a" = some command := by
  let S := ExecutionCommandService.service fun _ ↦ 0
  let begun := S.run .free sampleRequested (.initial ExecutionCommandService.fresh)
  let command : ExecutionCommand := ⟨sampleTarget, sampleCommand, 28000, .queued⟩
  have hbegun : begun.map (fun c ↦ c.state.command? "a") = some (some command) := by
    decide +kernel
  have hfirst : (begun.bind (S.run .free sampleContention)).map (fun c ↦ c.outcome 1) =
      some (some (.drain sampleTarget 1, some (.ok none))) := by
    decide +kernel
  have hsecond : (begun.bind (S.run .free sampleContention)).map (fun c ↦ c.outcome 2) =
      some (some (.drain sampleTarget 1, some (.ok none))) := by
    decide +kernel
  have hleft : (begun.bind (S.run .free sampleContention)).map (fun c ↦ c.state.command? "a") =
      some (some command) := by
    decide +kernel
  obtain ⟨c, hc, hcommand⟩ := Option.map_eq_some_iff.mp hbegun
  obtain ⟨c', hc', hended⟩ := Option.map_eq_some_iff.mp hfirst
  rw [hc', Option.map_some, Option.some.injEq] at hsecond hleft
  rw [hc, Option.bind_some] at hc'
  exact ⟨c, c', Service.leads_of_run hc, Service.procs_of_run_start hc, Service.leads_of_run hc',
    Config.procs_of_outcome hended, Config.procs_of_outcome hsecond, command, hcommand, rfl, rfl,
    hleft⟩

end RatThings
