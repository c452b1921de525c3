import Mathlib.Data.List.Nodup
import RatThings.Library.Forest
import RatThings.Library.Separator
import RatThings.Runtime.Endings
import RatThings.Runtime.OwnThread
import RatThings.Runtime.Usage

/-!
# Agents and Turns of a Session

Agents are announced one after the other, each by the root agent or by one that was announced before
it, so that they form a tree (`Family.isTree`). The one thing that can spoil it is a child whose
thread id is the id of the Session's own agent: nothing in the reducer keeps the two apart, and such
a child has the place of the root twice. A Turn belongs to the root thread or to that of an agent,
and has one binding for its native coordinates.

The public id of a Turn is put together from its coordinates until an API id takes its place. Native
ids without an underscore cannot be mistaken for each other then, and neither can the Turns that
wait for a function (`Identified`). This needs that an API Turn is named as the service names them;
what is said of agents, coordinates and items needs nothing of the actions of a run (`Arranged`).
-/

namespace RatThings.Runtime

open Concurrent SessionRuntimeState

variable {parse : String → Option JsonValue} {state : SessionRuntimeState}
  {event : SessionRuntimeEvent}

/-! ## Families -/

/-- Agents with their parents, in the order in which they were announced. -/
inductive Family (rootThreadId agentId : String) : List (String × String) → Prop
  | nil : Family rootThreadId agentId []
  | announce {family : List (String × String)} {id parent : String}
      (earlier : Family rootThreadId agentId family) (other : id ≠ rootThreadId)
      (fresh : id ∉ family.map Prod.fst) (child : parent = agentId ∨ parent ∈ family.map Prod.fst) :
      Family rootThreadId agentId (family ++ [(id, parent)])

section

variable {rootThreadId agentId : String} {family : List (String × String)}

theorem Family.nodup (h : Family rootThreadId agentId family) : (family.map Prod.fst).Nodup := by
  induction h with
  | nil => exact List.nodup_nil
  | announce _ _ fresh _ ih =>
    rw [List.map_append]
    refine ih.append (List.nodup_singleton _) ?_
    intro id hmem hlast
    rw [List.map_singleton, List.mem_singleton] at hlast
    rw [hlast] at hmem
    exact fresh hmem

theorem Family.ne_root (h : Family rootThreadId agentId family) {member : String × String}
    (hmember : member ∈ family) : member.1 ≠ rootThreadId := by
  induction h with
  | nil => exact absurd hmember List.not_mem_nil
  | announce _ other _ _ ih =>
    rcases List.mem_append.1 hmember with hmember | hmember
    · exact ih hmember
    · rw [List.mem_singleton.1 hmember]
      exact other

/-- The parent of an agent is the root agent, or stands before the agent. -/
theorem Family.parent (h : Family rootThreadId agentId family) {i : ℕ} {member : String × String}
    (hi : family[i]? = some member) : member.2 = agentId ∨
      ∃ j < i, (family[j]?).map Prod.fst = some member.2 := by
  induction h with
  | nil => exact absurd hi (by simp)
  | @announce family id parent _ _ _ child ih =>
    by_cases hlt : i < family.length
    · rw [List.getElem?_append_left hlt] at hi
      refine (ih hi).imp_right ?_
      rintro ⟨j, hj, hparent⟩
      refine ⟨j, hj, ?_⟩
      rw [List.getElem?_append_left (hj.trans hlt)]
      exact hparent
    · rw [List.getElem?_append_right (Nat.le_of_not_lt hlt), List.getElem?_singleton] at hi
      split at hi
      · next hzero =>
        obtain rfl := Option.some.inj hi
        refine child.imp_right fun hmem ↦ ?_
        obtain ⟨j, hget⟩ := List.getElem?_of_mem hmem
        rw [List.getElem?_map] at hget
        obtain ⟨earlier, hearlier, -⟩ := Option.map_eq_some_iff.1 hget
        have hj := (List.getElem?_eq_some_iff.1 hearlier).1
        refine ⟨j, by omega, ?_⟩
        rw [List.getElem?_append_left hj]
        exact hget
      · exact absurd hi (by simp)

/-- The agents with the root agent above them. -/
def agentNodes (agentId : String) (family : List (String × String)) : List (Node String) :=
  ((none, agentId) :: family.map fun member ↦ (some member.2, member.1)).map fun entry ↦
    ⟨entry.2, entry.1⟩

/-- **Agents form a tree.** The place in the list decreases from an agent to its parent. -/
theorem Family.isTree (h : Family rootThreadId agentId family)
    (hagent : agentId ∉ family.map Prod.fst) : IsTree (agentNodes agentId family) := by
  have hkeys : (((none, agentId) :: family.map fun member ↦ (some member.2, member.1)).map
      fun entry : Option String × String ↦ entry.2) = agentId :: family.map Prod.fst := by
    rw [List.map_cons, List.map_map]
    rfl
  refine IsTree.of_key (fun entry ↦ (family.map Prod.fst).idxOf entry.2) ?_ List.mem_cons_self ?_ ?_
  · change (List.map (fun entry : Option String × String ↦ entry.2) _).Nodup
    rw [hkeys]
    exact List.nodup_cons.2 ⟨hagent, h.nodup⟩
  · intro entry hentry
    rcases List.mem_cons.1 hentry with rfl | hentry
    · exact iff_of_true rfl rfl
    · obtain ⟨member, -, rfl⟩ := List.mem_map.1 hentry
      exact iff_of_false (Option.some_ne_none _) (by simp)
  · intro entry hentry hne
    rcases List.mem_cons.1 hentry with rfl | hentry
    · exact absurd rfl hne
    · obtain ⟨member, hmember, rfl⟩ := List.mem_map.1 hentry
      obtain ⟨i, hi⟩ := List.getElem?_of_mem hmember
      rcases h.parent hi with hroot | ⟨j, hj, hparent⟩
      · refine ⟨_, List.mem_cons_self, ?_, .inl rfl⟩
        exact congrArg some hroot
      · obtain ⟨parent, hget, hname⟩ := Option.map_eq_some_iff.1 hparent
        refine ⟨(some parent.2, parent.1), List.mem_cons_of_mem _ ?_, ?_, .inr ?_⟩
        · exact List.mem_map_of_mem (List.mem_of_getElem? hget)
        · exact congrArg some hname.symm
        · have hplace {k : ℕ} {m : String × String} (hk : family[k]? = some m) :
              (family.map Prod.fst).idxOf m.1 = k := by
            have hlt := (List.getElem?_eq_some_iff.1 hk).1
            have hget : (family.map Prod.fst)[k]? = some m.1 := by
              rw [List.getElem?_map, hk]
              rfl
            obtain ⟨hlt', hget⟩ := List.getElem?_eq_some_iff.1 hget
            rw [← hget]
            exact h.nodup.idxOf_getElem k hlt'
          dsimp only
          rw [hplace hi, hplace hget]
          exact hj

end

def SessionRuntimeState.family (state : SessionRuntimeState) : List (String × String) :=
  state.subagents.map fun agent ↦ (agent.id, agent.parentAgentId)

/-- The agents and Turns of a state belong together. -/
structure Arranged (state : SessionRuntimeState) : Prop where
  family : Family state.rootThreadId state.agentId state.family
  apart : (state.turns.map (·.coordinates)).Nodup
  known : ∀ binding ∈ state.turns, state.knows binding.threadId = true
  /-- A Turn that failed or was cancelled has no item in progress. -/
  stopped : ∀ binding ∈ state.turns,
    binding.turn.status = .failed ∨ binding.turn.status = .cancelled →
      ∀ item ∈ binding.items, item.status ≠ some .inProgress

theorem Arranged.initial (sessionId agentId rootThreadId : String) :
    Arranged (initialSessionRuntime sessionId agentId rootThreadId) :=
  ⟨.nil, List.nodup_nil, fun _ h ↦ absurd h List.not_mem_nil, fun _ h ↦ absurd h List.not_mem_nil⟩

/-! ## Threads -/

theorem knows_family {id : String} :
    state.knows id = true ↔ id = state.rootThreadId ∨ id ∈ state.family.map Prod.fst := by
  rw [knows, family, Bool.or_eq_true, decide_eq_true_eq, List.any_eq_true, List.map_map]
  refine or_congr_right ?_
  rw [List.mem_map]
  constructor
  · rintro ⟨agent, hagent, hid⟩
    exact ⟨agent, hagent, of_decide_eq_true hid⟩
  · rintro ⟨agent, hagent, hid⟩
    exact ⟨agent, hagent, decide_eq_true hid⟩

/-- A thread that starts announces an agent, or says more about a known one. -/
theorem family_startThread (h : Family state.rootThreadId state.agentId state.family) (id : String)
    (thread : JsonValue) (now : ℚ) :
    (startThread state id thread now).family = state.family ∨
      ∃ parent, (startThread state id thread now).family = state.family ++ [(id, parent)] ∧
        id ≠ state.rootThreadId ∧ id ∉ state.family.map Prod.fst ∧
          (parent = state.agentId ∨ parent ∈ state.family.map Prod.fst) := by
  unfold startThread
  dsimp only
  split
  · exact .inl rfl
  next parentId _ =>
  split
  · exact .inl rfl
  next hannounced =>
  obtain ⟨hroot, hknows⟩ : id ≠ state.rootThreadId ∧ state.knows parentId = true := by
    simpa using hannounced
  rcases hfind : state.subagents.find? (·.id = id) with _ | previous
  · refine .inr ⟨if parentId = state.rootThreadId then state.agentId else parentId, ?_,
      hroot, ?_, ?_⟩
    · rw [family]
      dsimp only
      rw [hfind, if_neg (by simp), List.map_append]
      rfl
    · intro hmem
      obtain ⟨member, hmember, hid⟩ := List.mem_map.1 hmem
      obtain ⟨agent, hagent, rfl⟩ := List.mem_map.1 hmember
      exact absurd hid (by simpa using List.find?_eq_none.1 hfind agent hagent)
    · split
      · exact .inl rfl
      · next hne => exact .inr ((knows_family.1 hknows).resolve_left hne)
  · -- The agent keeps the parent that it was announced by.
    left
    have hprevious : previous ∈ state.subagents := List.mem_of_find?_eq_some hfind
    have hid : previous.id = id := by simpa using List.find?_some hfind
    rw [family]
    dsimp only
    rw [hfind, if_pos Option.isSome_some, List.map_map]
    refine List.map_congr_left fun agent hagent ↦ ?_
    rw [Function.comp_apply]
    split
    · next hsame =>
      have hnodup : (state.subagents.map (·.id)).Nodup := by
        have hnodup := h.nodup
        rwa [family, List.map_map] at hnodup
      have hagents : agent = previous :=
        List.inj_on_of_nodup_map hnodup hagent hprevious (hsame.trans hid.symm)
      rw [hagents]
      exact Prod.ext hid.symm rfl
    · rfl

theorem family_closeThread (id : String) (now : ℚ) :
    (closeThread state id now).family = state.family := by
  change List.map _ (state.subagents.map _) = state.family
  rw [List.map_map]
  refine List.map_congr_left fun agent _ ↦ ?_
  rw [Function.comp_apply]
  split <;> rfl

theorem knows_mono {after : SessionRuntimeState} (hroot : after.rootThreadId = state.rootThreadId)
    (hfamily : state.family <+: after.family) {id : String} (h : state.knows id = true) :
    after.knows id = true := by
  rw [knows_family] at h ⊢
  rw [hroot]
  exact h.imp_right fun hmem ↦ (hfamily.map Prod.fst).subset hmem

theorem startThread_agentId {id : String} {thread : JsonValue} {now : ℚ} :
    (startThread state id thread now).agentId = state.agentId := by
  unfold startThread
  dsimp only
  split
  · rfl
  · split <;> rfl

theorem Arranged.startThread (h : Arranged state) (id : String) (thread : JsonValue) (now : ℚ) :
    Arranged (startThread state id thread now) := by
  obtain ⟨hroot, hturns⟩ := @startThread_rootThreadId state id thread now
  have hkeeps : state.family <+: (Runtime.startThread state id thread now).family := by
    rcases family_startThread h.family id thread now with hsame | ⟨parent, hnew, -⟩
    · rw [hsame]
    · rw [hnew]
      exact List.prefix_append _ _
  refine ⟨?_, ?_, ?_, ?_⟩
  · rw [hroot, startThread_agentId]
    rcases family_startThread h.family id thread now with
      hsame | ⟨parent, hnew, hother, hfresh, hchild⟩
    · rw [hsame]
      exact h.family
    · rw [hnew]
      exact .announce h.family hother hfresh hchild
  · rw [hturns]
    exact h.apart
  · intro binding hbinding
    rw [hturns] at hbinding
    exact knows_mono hroot hkeeps (h.known binding hbinding)
  · rw [hturns]
    exact h.stopped

/-- Incomplete items are not in progress. -/
theorem incompleteItems_status {items : List AgentSessionItem} :
    ∀ item ∈ incompleteItems items, item.status ≠ some .inProgress := by
  intro item hitem
  obtain ⟨before, -, rfl⟩ := List.mem_map.1 hitem
  split
  · exact by simp
  · next hne => exact hne

/-- A move that changes every Turn on its own. -/
theorem Arranged.of_map (h : Arranged state) {after : SessionRuntimeState}
    {f : NativeTurnBinding → NativeTurnBinding} (hroot : after.rootThreadId = state.rootThreadId)
    (hagent : after.agentId = state.agentId) (hfamily : after.family = state.family)
    (hturns : after.turns = state.turns.map f)
    (hf : ∀ binding, (f binding).coordinates = binding.coordinates)
    (hstopped : ∀ binding ∈ state.turns,
      (f binding).turn.status = .failed ∨ (f binding).turn.status = .cancelled →
        ∀ item ∈ (f binding).items, item.status ≠ some .inProgress) : Arranged after := by
  refine ⟨?_, ?_, ?_, ?_⟩
  · rw [hroot, hagent, hfamily]
    exact h.family
  · have hsame : (state.turns.map f).map (·.coordinates) = state.turns.map (·.coordinates) := by
      rw [List.map_map]
      exact List.map_congr_left fun binding _ ↦ hf binding
    rw [hturns, hsame]
    exact h.apart
  · intro binding hbinding
    rw [hturns] at hbinding
    obtain ⟨before, hbefore, rfl⟩ := List.mem_map.1 hbinding
    have hthread : (f before).threadId = before.threadId := congrArg Prod.fst (hf before)
    rw [hthread]
    exact knows_mono hroot (by rw [hfamily]) (h.known before hbefore)
  · intro binding hbinding
    rw [hturns] at hbinding
    obtain ⟨before, hbefore, rfl⟩ := List.mem_map.1 hbinding
    exact hstopped before hbefore

theorem Arranged.closeThread (h : Arranged state) (id : String) (now : ℚ) :
    Arranged (closeThread state id now) := by
  refine h.of_map rfl rfl (family_closeThread id now) rfl (fun binding ↦ ?_)
    fun binding hbinding ↦ ?_
  · split <;> rfl
  · split
    · exact fun _ ↦ incompleteItems_status
    · exact h.stopped binding hbinding

/-! ## Notifications about a Turn -/

section

variable {threadId nativeTurnId : String}

/-- A Turn that is put in its place keeps what it agrees on with the one before it, or comes
last. -/
theorem map_putTurn {β : Type} {f : NativeTurnBinding → β} {binding : NativeTurnBinding}
    (hf : ∀ index previous, state.bindingOf threadId nativeTurnId = some (index, previous) →
      f binding = f previous) :
    (putTurn state threadId nativeTurnId binding).map f = state.turns.map f ∨
      (putTurn state threadId nativeTurnId binding = state.turns ++ [binding] ∧
        state.bindingOf threadId nativeTurnId = none) := by
  unfold putTurn
  rcases hfound : state.bindingOf threadId nativeTurnId with _ | ⟨index, previous⟩
  · exact .inr ⟨rfl, rfl⟩
  · left
    obtain ⟨hget, -⟩ := bindingOf_eq_some hfound
    dsimp only
    rw [List.map_set, hf index previous hfound]
    refine List.ext_getElem? fun i ↦ ?_
    rw [List.getElem?_set, List.getElem?_map]
    split
    · next hi =>
      rw [← hi, hget, List.length_map, if_pos (List.getElem?_eq_some_iff.1 hget).1]
      rfl
    · rfl

theorem coordinates_notMem (h : state.bindingOf threadId nativeTurnId = none) :
    (threadId, nativeTurnId) ∉ state.turns.map (·.coordinates) := by
  intro hmem
  obtain ⟨other, hother, hsame⟩ := List.mem_map.1 hmem
  exact bindingOf_eq_none h other hother (Prod.mk.inj hsame)

/-- The coordinates of the Turns: those of the changed Turn were there, or come last. -/
theorem coordinates_putTurn {binding : NativeTurnBinding}
    (hbinding : binding.coordinates = (threadId, nativeTurnId)) :
    (putTurn state threadId nativeTurnId binding).map (·.coordinates) =
        state.turns.map (·.coordinates) ∨
      (putTurn state threadId nativeTurnId binding = state.turns ++ [binding] ∧
        state.bindingOf threadId nativeTurnId = none) := by
  refine map_putTurn fun index previous hfound ↦ hbinding.trans ?_
  obtain ⟨-, hthread, hnative⟩ := bindingOf_eq_some hfound
  exact Prod.ext hthread.symm hnative.symm

/-- What the method of a notification leaves of the items of a Turn. -/
theorem finished_stopped {advance : Advance} :
    let after := (finished state event threadId nativeTurnId advance).binding
    after.turn.status = .failed ∨ after.turn.status = .cancelled →
      ∀ item ∈ after.items, item.status ≠ some .inProgress := by
  intro after hstatus
  rcases @requestFunction_cases event
      { advance with
        binding := projectItems state event threadId nativeTurnId advance.binding } with
    hsame | ⟨-, -, -, -, hbinding, -⟩
  · have hafter : after = projectItems state event threadId nativeTurnId advance.binding :=
      congrArg Advance.binding hsame
    rw [hafter] at hstatus ⊢
    unfold projectItems at hstatus ⊢
    dsimp only at hstatus ⊢
    rw [if_pos (by simpa using hstatus)]
    exact incompleteItems_status
  · -- The Turn waits for a function.
    have hwaiting : after.turn.status = .waiting := congrArg (·.turn.status) hbinding
    rw [hwaiting] at hstatus
    exact absurd hstatus (by decide)

theorem Arranged.reduceTurn (h : Arranged state) (hknows : state.knows threadId = true) :
    Arranged (reduceTurn state event threadId nativeTurnId) := by
  rcases @reduceTurn_cases state event threadId
    nativeTurnId with hsame | ⟨advance, hadvance, hresult⟩
  · rw [hsame]
    exact h
  have hchange := finished_change hadvance
  have hbinding : (finished state event threadId nativeTurnId advance).binding.coordinates =
      (threadId, nativeTurnId) := Prod.ext hchange.ofThread hchange.ofNative
  rw [hresult]
  refine ⟨h.family, ?_, fun binding hmem ↦ ?_, fun binding hmem ↦ ?_⟩
  · rcases coordinates_putTurn hbinding with hsame | ⟨hnew, hfresh⟩
    · rw [hsame]
      exact h.apart
    · rw [hnew, List.map_append, List.map_singleton, hbinding]
      refine h.apart.append (List.nodup_singleton _) ?_
      intro turn hturn hlast
      rw [List.mem_singleton.1 hlast] at hturn
      exact coordinates_notMem hfresh hturn
  · obtain ⟨i, hget⟩ := List.getElem?_of_mem hmem
    rcases getElem?_putTurn hget with rfl | hold
    · rw [hchange.ofThread]
      exact hknows
    · exact h.known binding (List.mem_of_getElem? hold)
  · obtain ⟨i, hget⟩ := List.getElem?_of_mem hmem
    rcases getElem?_putTurn hget with rfl | hold
    · exact finished_stopped
    · exact h.stopped binding (List.mem_of_getElem? hold)

end

theorem Arranged.reduceSessionRuntime (h : Arranged state) :
    Arranged (reduceSessionRuntime parse state event) := by
  refine reduceSessionRuntime_preserves (fun s calls paths hs ↦ ?_) (fun s id thread now hs ↦ ?_)
    (fun s id now _ hs ↦ ?_) (fun s event' threadId nativeTurnId _ _ hs hknows _ _ _ ↦ ?_) h
  · exact ⟨hs.family, hs.apart, hs.known, hs.stopped⟩
  · exact hs.startThread id thread now
  · exact hs.closeThread id now
  · exact hs.reduceTurn hknows

/-! ## Bindings, results and stops -/

theorem coordinates_attached {index : ℕ} {turn : Turn} {previous : String} :
    (state.turns.mapIdx fun i entry ↦
      if i = index then entry.attach turn else entry.reparent previous turn.id).map
        (·.coordinates) =
        state.turns.map (·.coordinates) := by
  have hbills := congrArg (List.map Bill.turn) (@bills_attached state index turn previous)
  rw [bills, List.map_map, List.map_map] at hbills
  exact hbills

theorem Arranged.bind (h : Arranged state) (nativeTurnId : String) (turn : Turn) :
    Arranged ((RuntimeAction.bind nativeTurnId turn).apply parse state) := by
  rcases @bind_cases parse state nativeTurnId turn with
    hsame | ⟨-, ⟨habsent, happlied⟩ | ⟨index, previous, -, happlied⟩⟩
  · rw [hsame]
    exact h
  · rw [happlied]
    refine ⟨h.family, ?_, fun binding hmem ↦ ?_, fun binding hmem ↦ ?_⟩
    · rw [List.map_append]
      refine h.apart.append (List.nodup_singleton _) ?_
      intro coordinates hold hlast
      rw [List.map_singleton, List.mem_singleton] at hlast
      rw [hlast] at hold
      exact coordinates_notMem habsent hold
    · rcases List.mem_append.1 hmem with hold | hnew
      · exact h.known binding hold
      · rw [List.mem_singleton.1 hnew]
        exact knows_family.2 (.inl rfl)
    · rcases List.mem_append.1 hmem with hold | hnew
      · exact h.stopped binding hold
      · rw [List.mem_singleton.1 hnew]
        exact fun _ _ hitem ↦ absurd hitem List.not_mem_nil
  · rw [happlied]
    have hcoordinates := @coordinates_attached state index turn previous.turn.id
    refine ⟨h.family, by rw [hcoordinates]; exact h.apart, fun binding hmem ↦ ?_,
      fun binding hmem ↦ ?_⟩
    · have hthread : binding.coordinates ∈ state.turns.map (·.coordinates) := by
        rw [← hcoordinates]
        exact List.mem_map_of_mem hmem
      obtain ⟨old, hold, hsame⟩ := List.mem_map.1 hthread
      have hsame : old.threadId = binding.threadId := congrArg Prod.fst hsame
      rw [← hsame]
      exact h.known old hold
    · obtain ⟨i, hget⟩ := List.getElem?_of_mem hmem
      rw [getElem?_attached] at hget
      obtain ⟨old, hold, rfl⟩ := Option.map_eq_some_iff.1 hget
      have hold := h.stopped old (List.mem_of_getElem? hold)
      split
      · intro hstatus item hitem
        obtain ⟨before, hbefore, rfl⟩ := List.mem_map.1 hitem
        exact hold hstatus before hbefore
      · unfold NativeTurnBinding.reparent
        split <;> exact hold

theorem Arranged.resolve (h : Arranged state) (turnId callId : String)
    (result : Option (ℚ × Bool)) :
    Arranged (resolveSessionFunction state turnId callId result) := by
  have hresume (binding : NativeTurnBinding) (actions : List RequiredAction) :
      (binding.resume turnId actions).coordinates = binding.coordinates ∧
        ((binding.resume turnId actions).turn.status = binding.turn.status ∨
          (binding.resume turnId actions).turn.status = .inProgress) ∧
        (binding.resume turnId actions).items = binding.items := by
    unfold NativeTurnBinding.resume
    split
    · exact ⟨rfl, .inr rfl, rfl⟩
    · exact ⟨rfl, .inl rfl, rfl⟩
  have hstep (binding : NativeTurnBinding) (completedAt : ℚ) (success : Bool) :
      (binding.resolveStep turnId callId completedAt success).coordinates = binding.coordinates ∧
        (binding.resolveStep turnId callId completedAt success).turn = binding.turn ∧
        (binding.resolveStep turnId callId completedAt success).items = binding.items := by
    unfold NativeTurnBinding.resolveStep
    split <;> exact ⟨rfl, rfl, rfl⟩
  have hkept {binding after : NativeTurnBinding} (hbinding : binding ∈ state.turns)
      (hstatus : after.turn.status = binding.turn.status ∨ after.turn.status = .inProgress)
      (hitems : after.items = binding.items) :
      after.turn.status = .failed ∨ after.turn.status = .cancelled →
        ∀ item ∈ after.items, item.status ≠ some .inProgress := by
    intro hended
    rw [hitems]
    rcases hstatus with hsame | hprogress
    · rw [hsame] at hended
      exact h.stopped binding hbinding hended
    · rw [hprogress] at hended
      exact absurd hended (by decide)
  rcases result with _ | ⟨completedAt, success⟩
  · refine h.of_map rfl rfl rfl rfl (fun binding ↦ (hresume binding _).1) fun binding hbinding ↦ ?_
    exact hkept hbinding (hresume binding _).2.1 (hresume binding _).2.2
  · refine h.of_map rfl rfl rfl List.map_map (fun binding ↦ ?_) fun binding hbinding ↦ ?_
    · exact (hresume _ _).1.trans (hstep binding completedAt success).1
    · obtain ⟨-, hturn, hitems⟩ := hstep binding completedAt success
      rw [Function.comp_apply]
      refine hkept hbinding ?_ ((hresume _ _).2.2.trans hitems)
      rw [← hturn]
      exact (hresume _ _).2.1

theorem Arranged.stop (h : Arranged state) (now : ℚ) :
    Arranged (stoppedSessionRuntime state now) := by
  refine h.of_map rfl rfl ?_ rfl (fun binding ↦ ?_) fun binding hbinding ↦ ?_
  · change List.map _ (state.subagents.map _) = state.family
    rw [List.map_map]
    refine List.map_congr_left fun agent _ ↦ ?_
    rw [Function.comp_apply]
    split <;> rfl
  · split <;> rfl
  · split
    · exact h.stopped binding hbinding
    · exact fun _ ↦ incompleteItems_status

theorem Arranged.apply (h : Arranged state) (action : RuntimeAction) :
    Arranged (action.apply parse state) := by
  rcases action with event | ⟨nativeTurnId, turn⟩ | ⟨turnId, callId, result⟩ | now
  · exact h.reduceSessionRuntime
  · exact h.bind nativeTurnId turn
  · exact h.resolve turnId callId result
  · exact h.stop now

/-! ## Public ids -/

/-- The text has no underscore. -/
def Plain (text : String) : Prop := '_' ∉ text.toList

instance (text : String) : Decidable (Plain text) := inferInstanceAs (Decidable (¬ _))

/-- The public id of a Turn: the native one, the one that is made for the Turn of an agent, or that
of an API Turn. -/
inductive HasPublicId (rootThreadId : String) (binding : NativeTurnBinding) : Prop
  | native (root : binding.threadId = rootThreadId) (id : binding.turn.id = binding.nativeTurnId)
  | child (other : binding.threadId ≠ rootThreadId)
      (id : binding.turn.id = "turn_" ++ binding.threadId ++ "_" ++ binding.nativeTurnId)
  | api (root : binding.threadId = rootThreadId) (text : String) (plain : Plain text)
      (id : binding.turn.id = "turn_" ++ text)

/-- The native ids of the Turns have no underscore. -/
def PlainIds (state : SessionRuntimeState) : Prop :=
  ∀ binding ∈ state.turns, Plain binding.threadId ∧ Plain binding.nativeTurnId

/-- Every function that is waited for is one of a known Turn that has not ended. -/
def Awaited (state : SessionRuntimeState) : Prop :=
  ∀ action ∈ state.requiredActions, ∀ turnId, action.isFor turnId = true →
    ∃ binding ∈ state.turns, binding.turn.id = turnId ∧ terminalTurn binding.turn = false

/-- The public ids tell the Turns apart, if the native ones can be. -/
structure Identified (state : SessionRuntimeState) : Prop where
  ids : ∀ binding ∈ state.turns, HasPublicId state.rootThreadId binding
  separate : PlainIds state → (state.turns.map (·.turn.id)).Nodup ∧ Awaited state

theorem count_of_plain {text : String} (h : Plain text) : text.toList.count '_' = 0 :=
  List.count_eq_zero.2 h

theorem count_child {threadId nativeTurnId : String} (hthread : Plain threadId)
    (hnative : Plain nativeTurnId) :
    ("turn_" ++ threadId ++ "_" ++ nativeTurnId).toList.count '_' = 2 := by
  have hturn : "turn_".toList.count '_' = 1 := by decide
  have hseparator : "_".toList.count '_' = 1 := by decide
  rw [String.toList_append, String.toList_append, String.toList_append, List.count_append,
    List.count_append, List.count_append, hturn, hseparator, count_of_plain hthread,
    count_of_plain hnative]

theorem count_api {text : String} (h : Plain text) : ("turn_" ++ text).toList.count '_' = 1 := by
  have hturn : "turn_".toList.count '_' = 1 := by decide
  rw [String.toList_append, List.count_append, hturn, count_of_plain h]

theorem child_inj {threadId nativeTurnId threadId' nativeTurnId' : String}
    (hthread : Plain threadId)
    (hthread' : Plain threadId')
    (h : "turn_" ++ threadId ++ "_" ++ nativeTurnId =
      "turn_" ++ threadId' ++ "_" ++ nativeTurnId') :
    threadId = threadId' ∧ nativeTurnId = nativeTurnId' := by
  have hlists := congrArg String.toList h
  simp only [String.toList_append, List.append_assoc, List.append_cancel_left_eq] at hlists
  obtain ⟨hsame, hsame'⟩ := eq_of_append_separator hlists hthread hthread'
  exact ⟨String.toList_inj.1 hsame, String.toList_inj.1 hsame'⟩

/-- A Turn that is found by its native coordinates has an id of its own: only Turns with the same
coordinates have it too. -/
theorem HasPublicId.apart {rootThreadId : String} {binding binding' : NativeTurnBinding}
    (h : HasPublicId rootThreadId binding)
    (hnew : ∀ text, Plain text → binding.turn.id ≠ "turn_" ++ text)
    (h' : HasPublicId rootThreadId binding')
    (hplain : Plain binding.threadId ∧ Plain binding.nativeTurnId)
    (hplain' : Plain binding'.threadId ∧ Plain binding'.nativeTurnId)
    (hid : binding.turn.id = binding'.turn.id) : binding.coordinates = binding'.coordinates := by
  have hcount : binding.turn.id.toList.count '_' = binding'.turn.id.toList.count '_' := by rw [hid]
  rcases h with ⟨hroot, hnative⟩ | ⟨hother, hchild⟩ | ⟨-, text, htext, hapi⟩
  · rcases h' with ⟨hroot', hnative'⟩ | ⟨-, hchild'⟩ | ⟨-, text', htext', hapi'⟩
    · refine Prod.ext (hroot.trans hroot'.symm) ?_
      exact hnative.symm.trans (hid.trans hnative')
    · rw [hnative, hchild', count_of_plain hplain.2, count_child hplain'.1 hplain'.2] at hcount
      omega
    · exact absurd (hid.trans hapi') (hnew text' htext')
  · rcases h' with ⟨-, hnative'⟩ | ⟨-, hchild'⟩ | ⟨-, text', htext', hapi'⟩
    · rw [hchild, hnative', count_of_plain hplain'.2, count_child hplain.1 hplain.2] at hcount
      omega
    · rw [hchild, hchild'] at hid
      obtain ⟨hthread, hnative⟩ := child_inj hplain.1 hplain'.1 hid
      exact Prod.ext hthread hnative
    · exact absurd (hid.trans hapi') (hnew text' htext')
  · exact absurd hapi (hnew text htext)

theorem newTurn_id (threadId nativeTurnId : String) (now : ℚ) :
    (newTurn state threadId nativeTurnId now).turn.id = if threadId = state.rootThreadId then
      nativeTurnId else "turn_" ++ threadId ++ "_" ++ nativeTurnId := by
  unfold newTurn
  dsimp only
  exact ite_not _ _ _

theorem hasPublicId_newTurn (threadId nativeTurnId : String) (now : ℚ) :
    HasPublicId state.rootThreadId (newTurn state threadId nativeTurnId now) := by
  by_cases hroot : threadId = state.rootThreadId
  · exact .native hroot (by rw [newTurn_id, if_pos hroot]; rfl)
  · exact .child hroot (by rw [newTurn_id, if_neg hroot]; rfl)

theorem newTurn_id_ne {threadId nativeTurnId : String} (hthread : Plain threadId)
    (hnative : Plain nativeTurnId) (now : ℚ) {text : String} (htext : Plain text) :
    (newTurn state threadId nativeTurnId now).turn.id ≠ "turn_" ++ text := by
  intro hid
  have hcount := count_api htext
  rw [← hid, newTurn_id] at hcount
  split at hcount
  · rw [count_of_plain hnative] at hcount
    omega
  · rw [count_child hthread hnative] at hcount
    omega

theorem HasPublicId.congr {rootThreadId : String} {binding binding' : NativeTurnBinding}
    (h : HasPublicId rootThreadId binding) (hthread : binding'.threadId = binding.threadId)
    (hnative : binding'.nativeTurnId = binding.nativeTurnId)
    (hid : binding'.turn.id = binding.turn.id) : HasPublicId rootThreadId binding' := by
  rcases h with ⟨hroot, h⟩ | ⟨hother, h⟩ | ⟨hroot, text, htext, h⟩
  · exact .native (hthread.trans hroot) (hid.trans (h.trans hnative.symm))
  · refine .child (fun hroot ↦ hother (hthread.symm.trans hroot)) ?_
    rw [hid, h, hthread, hnative]
  · exact .api (hthread.trans hroot) text htext (hid.trans h)

theorem PlainIds.of_prefix {after : SessionRuntimeState} (h : PlainIds after)
    (hkeeps : state.turns.map (·.coordinates) <+: after.turns.map (·.coordinates)) :
    PlainIds state := by
  intro binding hbinding
  have hmem : binding.coordinates ∈ after.turns.map (·.coordinates) :=
    hkeeps.subset (List.mem_map_of_mem hbinding)
  obtain ⟨other, hother, hsame⟩ := List.mem_map.1 hmem
  obtain ⟨hthread, hnative⟩ := Prod.mk.inj hsame
  rw [← hthread, ← hnative]
  exact h other hother

/-- Of Turns with ids of their own, one alone has an id. -/
theorem eq_of_turn_id (h : (state.turns.map (·.turn.id)).Nodup)
    {binding binding' : NativeTurnBinding}
    (hbinding : binding ∈ state.turns) (hbinding' : binding' ∈ state.turns)
    (hid : binding.turn.id = binding'.turn.id) : binding = binding' :=
  List.inj_on_of_nodup_map h hbinding hbinding' hid

/-- A move that changes every Turn on its own, and asks for nothing. -/
theorem Identified.of_map (h : Identified state) {after : SessionRuntimeState}
    {f : NativeTurnBinding → NativeTurnBinding} (hroot : after.rootThreadId = state.rootThreadId)
    (hturns : after.turns = state.turns.map f)
    (hf : ∀ binding, (f binding).turn.id = binding.turn.id ∧
      (f binding).threadId = binding.threadId ∧ (f binding).nativeTurnId = binding.nativeTurnId)
    (hactions : Awaited state → Awaited after) : Identified after := by
  have hids : after.turns.map (·.turn.id) = state.turns.map (·.turn.id) := by
    rw [hturns, List.map_map]
    exact List.map_congr_left fun binding _ ↦ (hf binding).1
  have hcoordinates : after.turns.map (·.coordinates) = state.turns.map (·.coordinates) := by
    rw [hturns, List.map_map]
    exact List.map_congr_left fun binding _ ↦ Prod.ext (hf binding).2.1 (hf binding).2.2
  refine ⟨fun binding hbinding ↦ ?_, fun hplain ↦ ?_⟩
  · rw [hturns] at hbinding
    obtain ⟨before, hbefore, rfl⟩ := List.mem_map.1 hbinding
    obtain ⟨hid, hthread, hnative⟩ := hf before
    rw [hroot]
    exact (h.ids before hbefore).congr hthread hnative hid
  · obtain ⟨hnodup, hawaited⟩ := h.separate (hplain.of_prefix (by rw [hcoordinates]))
    rw [hids]
    exact ⟨hnodup, hactions hawaited⟩

theorem Identified.startThread (h : Identified state) (id : String) (thread : JsonValue) (now : ℚ) :
    Identified (startThread state id thread now) := by
  obtain ⟨hroot, -⟩ := @startThread_rootThreadId state id thread now
  obtain ⟨hturns, hactions⟩ := @startThread_turns state id thread now
  refine h.of_map hroot (hturns.trans (List.map_id _).symm) (fun _ ↦ ⟨rfl, rfl, rfl⟩) ?_
  intro hawaited
  rw [Awaited, hturns, hactions]
  exact hawaited

theorem Identified.closeThread (h : Identified state) (id : String) (now : ℚ) :
    Identified (closeThread state id now) := by
  refine h.of_map rfl rfl (fun binding ↦ ?_) fun hawaited action hmem turnId hfor ↦ ?_
  · split <;> exact ⟨rfl, rfl, rfl⟩
  · obtain ⟨hmem, hnot⟩ := List.mem_filter.1 hmem
    obtain ⟨binding, hbinding, hid, hopen⟩ := hawaited action hmem turnId hfor
    have hthread : binding.threadId ≠ id := by
      intro hsame
      rw [Bool.not_eq_true', List.any_eq_false] at hnot
      exact hnot binding hbinding (by simp [hsame, hid, hfor])
    refine ⟨binding, ?_, hid, hopen⟩
    refine List.mem_map.2 ⟨binding, hbinding, ?_⟩
    rw [if_neg (by simp [hthread])]

section

variable {threadId nativeTurnId : String} {after : Advance}

/-- The Turn that a notification changes keeps its public id, or gets the one of a new Turn. -/
theorem TurnChange.hasPublicId (hchange : TurnChange state event threadId nativeTurnId after)
    (h : Identified state) : HasPublicId state.rootThreadId after.binding := by
  have hturnOf := @turnOf_threadId state threadId nativeTurnId event.observedAt
  have hbefore : HasPublicId state.rootThreadId
      (turnOf state threadId nativeTurnId event.observedAt) := by
    unfold turnOf
    rcases hfound : state.bindingOf threadId nativeTurnId with _ | ⟨index, previous⟩
    · exact hasPublicId_newTurn threadId nativeTurnId event.observedAt
    · exact h.ids previous (List.mem_of_getElem? (bindingOf_eq_some hfound).1)
  exact hbefore.congr (hchange.ofThread.trans hturnOf.1.symm)
    (hchange.ofNative.trans hturnOf.2.symm) hchange.id

/-- The id of a new Turn is not one of those that are there. -/
theorem TurnChange.nodup_ids (hchange : TurnChange state event threadId nativeTurnId after)
    (h : Identified state) (hbefore : PlainIds state)
    (hplain : Plain after.binding.threadId ∧ Plain after.binding.nativeTurnId)
    (hnodup : (state.turns.map (·.turn.id)).Nodup) :
    ((putTurn state threadId nativeTurnId after.binding).map (·.turn.id)).Nodup := by
  have hids := @map_putTurn state threadId nativeTurnId _ (·.turn.id) after.binding
    fun index previous hfound ↦ by rw [hchange.id, turnOf, hfound]; rfl
  rcases hids with hsame | ⟨hnew, hfound⟩
  · rw [hsame]
    exact hnodup
  · rw [hnew, List.map_append]
    refine hnodup.append (List.nodup_singleton _) ?_
    intro id hold hlast
    rw [List.map_singleton, List.mem_singleton] at hlast
    obtain ⟨other, hother, hid⟩ := List.mem_map.1 hold
    have hfresh (text : String) (htext : Plain text) :
        after.binding.turn.id ≠ "turn_" ++ text := by
      have hplain' := hplain
      rw [hchange.ofThread, hchange.ofNative] at hplain'
      rw [hchange.id, turnOf, hfound]
      exact newTurn_id_ne hplain'.1 hplain'.2 event.observedAt htext
    have hcoordinates := (hchange.hasPublicId h).apart hfresh (h.ids other hother) hplain
      (hbefore other hother) (hlast.symm.trans hid.symm)
    have hbinding : after.binding.coordinates = (threadId, nativeTurnId) :=
      Prod.ext hchange.ofThread hchange.ofNative
    refine coordinates_notMem hfound ?_
    rw [← hbinding, hcoordinates]
    exact List.mem_map_of_mem hother

/-- What is waited for after a notification is a function of a Turn that has not ended. -/
theorem TurnChange.awaited (hchange : TurnChange state event threadId nativeTurnId after)
    (hnodup : (state.turns.map (·.turn.id)).Nodup) (hawaited : Awaited state) :
    Awaited { state with
      turns := putTurn state threadId nativeTurnId after.binding
      requiredActions := after.requiredActions
      threadUsage := after.threadUsage } := by
  intro action hmem turnId hfor
  by_cases hid : after.binding.turn.id = turnId
  · subst hid
    refine ⟨after.binding, mem_putTurn, rfl, eq_false_of_ne_true fun hended ↦ ?_⟩
    rcases hchange.ended hended with hbefore | hnone
    · rcases hchange.requested action hmem hfor with hold | ⟨-, hopen⟩
      · -- It waited before, but the Turn with this id had ended.
        obtain ⟨binding, hbinding, hid, hopen⟩ := hawaited action hold _ hfor
        have hsame := eq_of_turn_id hnodup hbinding (turnOf_mem_of_terminal hbefore)
          (hid.trans hchange.id)
        rw [hsame, hbefore] at hopen
        exact absurd hopen (by decide)
      · exact absurd (hended.symm.trans hopen) (by decide)
    · exact absurd (hfor.symm.trans (hnone action hmem)) (by decide)
  · have hother : action.isFor after.binding.turn.id = false :=
      eq_false_of_ne_true fun hfor' ↦ hid (isFor_unique hfor' hfor)
    obtain ⟨binding, hbinding, hid', hopen⟩ :=
      hawaited action ((hchange.mem_of_not_isFor hother).1 hmem) turnId hfor
    obtain ⟨i, hget⟩ := List.getElem?_of_mem hbinding
    rcases @getElem?_putTurn_of_some state threadId nativeTurnId after.binding i binding
      event.observedAt hget with hkept | ⟨-, hturn⟩
    · exact ⟨binding, List.mem_of_getElem? hkept, hid', hopen⟩
    · rw [← hturn] at hid'
      exact absurd (hchange.id.trans hid') hid

/-- **The step lemma of public ids.** -/
theorem Identified.reduceTurn (h : Identified state) :
    Identified (reduceTurn state event threadId nativeTurnId) := by
  rcases @reduceTurn_change state event threadId nativeTurnId with hsame | ⟨after, hchange, hresult⟩
  · rw [hsame]
    exact h
  rw [hresult]
  refine ⟨fun binding hmem ↦ ?_, fun hplain ↦ ?_⟩
  · obtain ⟨i, hget⟩ := List.getElem?_of_mem hmem
    rcases getElem?_putTurn hget with rfl | hold
    · exact hchange.hasPublicId h
    · exact h.ids binding (List.mem_of_getElem? hold)
  · have hbinding : after.binding.coordinates = (threadId, nativeTurnId) :=
      Prod.ext hchange.ofThread hchange.ofNative
    have hbefore : PlainIds state := by
      refine hplain.of_prefix ?_
      dsimp only
      rcases coordinates_putTurn hbinding with hsame | ⟨hnew, -⟩
      · rw [hsame]
      · rw [hnew, List.map_append]
        exact List.prefix_append _ _
    obtain ⟨hnodup, hawaited⟩ := h.separate hbefore
    exact ⟨hchange.nodup_ids h hbefore (hplain after.binding mem_putTurn) hnodup,
      hchange.awaited hnodup hawaited⟩

end

theorem Identified.reduceSessionRuntime (h : Identified state) :
    Identified (reduceSessionRuntime parse state event) := by
  refine reduceSessionRuntime_preserves (fun s calls paths hs ↦ ?_) (fun s id thread now hs ↦ ?_)
    (fun s id now _ hs ↦ ?_) (fun s event' threadId nativeTurnId _ _ hs _ _ _ _ ↦ ?_) h
  · exact ⟨hs.ids, hs.separate⟩
  · exact hs.startThread id thread now
  · exact hs.closeThread id now
  · exact hs.reduceTurn

/-- The ids of the Turns, when a known one gets its API id. -/
theorem ids_attached {index : ℕ} {turn : Turn} {previous : String} :
    (state.turns.mapIdx fun i entry ↦ if i = index then entry.attach turn
      else entry.reparent previous turn.id).map (·.turn.id) =
        (state.turns.map (·.turn.id)).set index turn.id := by
  refine List.ext_getElem? fun i ↦ ?_
  rw [List.getElem?_map, getElem?_attached, List.getElem?_set, List.getElem?_map, List.length_map]
  by_cases hi : index = i
  · rw [if_pos hi, hi]
    rcases hget : state.turns[i]? with _ | entry
    · rw [if_neg (by simpa using hget)]
      rfl
    · rw [if_pos (List.getElem?_eq_some_iff.1 hget).1, Option.map_some, Option.map_some, if_pos rfl]
      rfl
  · rw [if_neg hi, Option.map_map]
    congr 1
    funext entry
    rw [Function.comp_apply, if_neg (Ne.symm hi), NativeTurnBinding.reparent_turn.1]

/-- An API Turn has an id without an underscore of its own. -/
def RuntimeAction.NamesApiTurn : RuntimeAction → Prop
  | .bind _ turn => ∃ text, Plain text ∧ turn.id = "turn_" ++ text
  | _ => True

section

variable {turn : Turn}

/-- An API Turn that is not known to the runtime is added to it. -/
theorem Identified.addTurn (h : Identified state) {added : NativeTurnBinding}
    (hpublic : HasPublicId state.rootThreadId added)
    (hfresh : ∀ binding ∈ state.turns, binding.turn.id ≠ added.turn.id) :
    Identified { state with turns := state.turns ++ [added] } := by
  refine ⟨fun binding hmem ↦ ?_, fun hplain ↦ ?_⟩
  · rcases List.mem_append.1 hmem with hold | hnew
    · exact h.ids binding hold
    · rw [List.mem_singleton.1 hnew]
      exact hpublic
  · have hbefore : PlainIds state := fun binding hbinding ↦
      hplain binding (List.mem_append_left _ hbinding)
    obtain ⟨hnodup, hawaited⟩ := h.separate hbefore
    refine ⟨?_, fun action hmem turnId hfor ↦ ?_⟩
    · dsimp only
      rw [List.map_append]
      refine hnodup.append (List.nodup_singleton _) ?_
      intro id hold hlast
      rw [List.map_singleton, List.mem_singleton] at hlast
      obtain ⟨other, hother, hsame⟩ := List.mem_map.1 hold
      exact hfresh other hother (hsame.trans hlast)
    · obtain ⟨binding, hbinding, hawaits⟩ := hawaited action hmem turnId hfor
      exact ⟨binding, List.mem_append_left _ hbinding, hawaits⟩

/-- What was waited for by the id that a Turn had is waited for by the one that it gets. -/
theorem Awaited.attached {index : ℕ} {previous : NativeTurnBinding} (hawaited : Awaited state)
    (hnodup : (state.turns.map (·.turn.id)).Nodup)
    (hprevious : state.turns[index]? = some previous) :
    Awaited { state with
      turns := state.turns.mapIdx fun i entry ↦
        if i = index then entry.attach turn else entry.reparent previous.turn.id turn.id
      requiredActions := state.requiredActions.map (·.rename previous.turn.id turn.id) } := by
  intro action' hmem turnId hfor
  obtain ⟨action, haction, rfl⟩ := List.mem_map.1 hmem
  rcases RequiredAction.isFor_rename hfor with ⟨hfor', rfl⟩ | ⟨hfor', hne⟩
  · -- The Turn that it waits for is the one that is bound.
    obtain ⟨binding, hbinding, hsame, hopen⟩ := hawaited action haction _ hfor'
    have hbound := eq_of_turn_id hnodup hbinding (List.mem_of_getElem? hprevious) hsame
    refine ⟨previous.attach turn, List.mem_of_getElem? (i := index) ?_, rfl, ?_⟩
    · rw [getElem?_attached, hprevious, Option.map_some, if_pos rfl]
    · rw [← hbound]
      exact hopen
  · obtain ⟨binding, hbinding, hsame, hopen⟩ := hawaited action haction _ hfor'
    obtain ⟨i, hget⟩ := List.getElem?_of_mem hbinding
    have hi : i ≠ index := by
      rintro rfl
      rw [hprevious] at hget
      exact hne (by rw [← hsame, ← Option.some.inj hget])
    refine ⟨binding.reparent previous.turn.id turn.id, List.mem_of_getElem? (i := i) ?_, ?_⟩
    · rw [getElem?_attached, hget, Option.map_some, if_neg hi]
    · rw [NativeTurnBinding.reparent_turn.1]
      exact ⟨hsame, hopen⟩

theorem Identified.bind (h : Identified state) (nativeTurnId : String)
    (hturn : ∃ text, Plain text ∧ turn.id = "turn_" ++ text) :
    Identified ((RuntimeAction.bind nativeTurnId turn).apply parse state) := by
  obtain ⟨text, htext, hid⟩ := hturn
  rcases @bind_cases parse state nativeTurnId turn with
    hsame | ⟨hfresh, ⟨-, happlied⟩ | ⟨index, previous, hfound, happlied⟩⟩
  · rw [hsame]
    exact h
  · rw [happlied]
    exact h.addTurn (.api rfl text htext hid) hfresh
  · obtain ⟨hprevious, hthread, -⟩ := bindingOf_eq_some hfound
    rw [happlied]
    refine ⟨fun binding hmem ↦ ?_, fun hplain ↦ ?_⟩
    · obtain ⟨i, hget⟩ := List.getElem?_of_mem hmem
      rw [getElem?_attached] at hget
      obtain ⟨old, hold, rfl⟩ := Option.map_eq_some_iff.1 hget
      split
      · next hi =>
        rw [hi, hprevious] at hold
        obtain rfl := Option.some.inj hold
        exact .api hthread text htext hid
      · obtain ⟨hsame, hthread', hnative'⟩ :=
          @NativeTurnBinding.reparent_turn old previous.turn.id turn.id
        exact (h.ids old (List.mem_of_getElem? hold)).congr hthread' hnative'
          (congrArg (·.id) hsame)
    · have hbefore : PlainIds state := by
        refine hplain.of_prefix ?_
        dsimp only
        rw [coordinates_attached]
      obtain ⟨hnodup, hawaited⟩ := h.separate hbefore
      refine ⟨?_, hawaited.attached hnodup hprevious⟩
      dsimp only
      rw [ids_attached]
      refine hnodup.set fun hmem ↦ ?_
      obtain ⟨other, hother, hsame⟩ := List.mem_map.1 hmem
      exact hfresh other hother hsame

end

theorem Identified.resolve (h : Identified state) (turnId callId : String)
    (result : Option (ℚ × Bool)) :
    Identified (resolveSessionFunction state turnId callId result) := by
  obtain ⟨f, hturns, hf⟩ := @resolveSessionFunction_turns state turnId callId result
  have hroot : (resolveSessionFunction state turnId callId result).rootThreadId =
      state.rootThreadId := by
    rcases result with _ | ⟨completedAt, success⟩ <;> rfl
  refine h.of_map hroot hturns (fun binding ↦ ⟨(hf binding).1, (hf binding).2.2⟩) ?_
  intro hawaited action hmem id hfor
  obtain ⟨binding, hbinding, hid, hopen⟩ := hawaited action (List.mem_filter.1 hmem).1 id hfor
  refine ⟨f binding, ?_, (hf binding).1.trans hid, (hf binding).2.1.trans hopen⟩
  rw [hturns]
  exact List.mem_map_of_mem hbinding

theorem Identified.stop (h : Identified state) (now : ℚ) :
    Identified (stoppedSessionRuntime state now) := by
  refine h.of_map rfl rfl (fun binding ↦ ?_) fun _ action hmem ↦ absurd hmem List.not_mem_nil
  split <;> exact ⟨rfl, rfl, rfl⟩

theorem Identified.apply (h : Identified state) {action : RuntimeAction}
    (haction : action.NamesApiTurn) : Identified (action.apply parse state) := by
  rcases action with event | ⟨nativeTurnId, turn⟩ | ⟨turnId, callId, result⟩ | now
  · exact h.reduceSessionRuntime
  · exact h.bind nativeTurnId haction
  · exact h.resolve turnId callId result
  · exact h.stop now

/-! ## Runs -/

theorem arranged_run (sessionId agentId rootThreadId : String) (actions : List RuntimeAction) :
    Arranged (runActions parse actions (initialSessionRuntime sessionId agentId rootThreadId)) := by
  induction actions using List.reverseRecOn with
  | nil => exact .initial sessionId agentId rootThreadId
  | append_singleton actions action ih =>
    rw [runActions, List.foldl_concat]
    exact ih.apply action

theorem identified_run (sessionId agentId rootThreadId : String) {actions : List RuntimeAction}
    (hactions : ∀ action ∈ actions, action.NamesApiTurn) :
    Identified (runActions parse actions
      (initialSessionRuntime sessionId agentId rootThreadId)) := by
  induction actions using List.reverseRecOn with
  | nil => exact ⟨fun _ hmem ↦ absurd hmem List.not_mem_nil,
      fun _ ↦ ⟨List.nodup_nil, fun _ hmem ↦ absurd hmem List.not_mem_nil⟩⟩
  | append_singleton actions action ih =>
    rw [List.forall_mem_append, List.forall_mem_singleton] at hactions
    rw [runActions, List.foldl_concat]
    exact (ih hactions.1).apply hactions.2

/-- **Agents and Turns stay well formed.** In every run each agent was announced by the root agent
or by one before it, and the agents form a tree; the native coordinates tell the Turns apart, and
every Turn is one of the root thread or of an agent; and a Turn that failed or was cancelled has no
item in progress. Where native ids have no underscore, and API Turns have ids of their own form, the
public ids tell the Turns apart too, and every function that is waited for is one of a Turn that has
not ended. -/
theorem agents_and_turns_wellFormed (parse : String → Option JsonValue)
    (sessionId agentId rootThreadId : String) (actions : List RuntimeAction) :
    let state := runActions parse actions (initialSessionRuntime sessionId agentId rootThreadId)
    (state.subagents.map (·.id)).Nodup ∧
    (∀ (i : ℕ) agent, state.subagents[i]? = some agent → agent.id ≠ state.rootThreadId ∧
      (agent.parentAgentId = state.agentId ∨
        ∃ j < i, (state.subagents[j]?).map (·.id) = some agent.parentAgentId)) ∧
    (state.agentId ∉ state.subagents.map (·.id) → IsTree (agentNodes state.agentId state.family)) ∧
    (state.turns.map (·.coordinates)).Nodup ∧
    (∀ binding ∈ state.turns, binding.threadId = state.rootThreadId ∨
      ∃ agent ∈ state.subagents, agent.id = binding.threadId) ∧
    (∀ binding ∈ state.turns, binding.turn.status = .failed ∨ binding.turn.status = .cancelled →
      ∀ item ∈ binding.items, item.status ≠ some .inProgress) ∧
    ((∀ action ∈ actions, action.NamesApiTurn) →
      (∀ binding ∈ state.turns, Plain binding.threadId ∧ Plain binding.nativeTurnId) →
      (state.turns.map (·.turn.id)).Nodup ∧
      ∀ action ∈ state.requiredActions, ∀ turnId, action.isFor turnId = true →
        ∃ binding ∈ state.turns, binding.turn.id = turnId ∧ terminalTurn binding.turn = false) := by
  intro state
  have harranged : Arranged state := arranged_run sessionId agentId rootThreadId actions
  have hids : state.family.map Prod.fst = state.subagents.map (·.id) := List.map_map
  refine ⟨?_, fun i agent hi ↦ ?_, ?_, harranged.apart, fun binding hbinding ↦ ?_,
    harranged.stopped, fun hactions ↦ ?_⟩
  · rw [← hids]
    exact harranged.family.nodup
  · have hmember : state.family[i]? = some (agent.id, agent.parentAgentId) := by
      rw [family, List.getElem?_map, hi]
      rfl
    refine ⟨harranged.family.ne_root (List.mem_of_getElem? hmember), ?_⟩
    refine (harranged.family.parent hmember).imp_right ?_
    rintro ⟨j, hj, hparent⟩
    refine ⟨j, hj, ?_⟩
    rwa [family, List.getElem?_map, Option.map_map] at hparent
  · intro hagent
    rw [← hids] at hagent
    exact harranged.family.isTree hagent
  · refine (knows_family.1 (harranged.known binding hbinding)).imp_right fun hmem ↦ ?_
    rw [hids] at hmem
    exact List.mem_map.1 hmem
  · exact (identified_run sessionId agentId rootThreadId hactions).separate

/-- An agent that waits for a function, and the Turn of the root that is bound meanwhile. -/
def sampleAgents : List RuntimeAction :=
  [.native (childStarted "child"), .native (nativeEvent "turn/started" "root" "native-1"),
    .native (functionCalled "child" "native-2"),
    .bind "native-1" ⟨"turn_1", "session", "agent", none, .inProgress, 5, none, none, none, none⟩]

theorem sampleAgents_wellFormed :
    let state := runActions unparsed sampleAgents (initialSessionRuntime "session" "agent" "root")
    IsTree (agentNodes state.agentId state.family) ∧
      state.turns.map (·.turn.id) = ["turn_1", "turn_child_native-2"] ∧
      ∃ action ∈ state.requiredActions, action.isFor "turn_child_native-2" = true ∧
        ∃ binding ∈ state.turns, binding.turn.id = "turn_child_native-2" ∧
          terminalTurn binding.turn = false := by
  have hactions : ∀ action ∈ sampleAgents, action.NamesApiTurn := by
    intro action hmem
    simp only [sampleAgents, List.mem_cons, List.not_mem_nil, or_false] at hmem
    rcases hmem with rfl | rfl | rfl | rfl
    · trivial
    · trivial
    · trivial
    · exact ⟨"1", by decide, rfl⟩
  obtain ⟨-, -, htree, -, -, -, hids⟩ :=
    agents_and_turns_wellFormed unparsed "session" "agent" "root" sampleAgents
  refine ⟨htree (by decide), by decide +kernel, ?_⟩
  have haction : ∃ action ∈ (runActions unparsed sampleAgents
      (initialSessionRuntime "session" "agent" "root")).requiredActions,
        action.isFor "turn_child_native-2" = true := by decide +kernel
  obtain ⟨action, hmem, hfor⟩ := haction
  exact ⟨action, hmem, hfor, (hids hactions (by decide +kernel)).2 action hmem _ hfor⟩

end RatThings.Runtime
