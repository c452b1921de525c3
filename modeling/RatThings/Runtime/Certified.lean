import Mathlib.Data.List.Dedup
import Mathlib.Data.List.Perm.Subperm
import RatThings.Runtime.Checkpoint

/-!
# What a native checkpoint certifies

A plan for a checkpoint succeeds only if the native histories hold all the work that the Session has
acknowledged. This module says what holding it means without a search, and what more a plan asks.

## The specification

`Acknowledged` says that the threads hold the acknowledged work: they are the threads of the
Session, each under its recorded parent, and each Turn has a native Turn which `Holds` its items.
The items that are compared with the native ones form a part of them, in their order
(`List.SublistForall₂`); the others agree with an activity.

`Certifiable` are four further conditions, each of which the code checks on its way: there is a Turn
at all, the agents of every message are known, the native items can be read up to the activities
looked up in them, and the parents lead to the root. None of the four follows from the acknowledged
work, and `acknowledged_not_planned` has an example for each.

## The proof

Each check of the code succeeds exactly if one part of the specification holds, and the parts are
put together in the order of the checks. That a greedy search finds a sublist if there is one, and
that the order gets stuck only where a thread is not reached from the root, are facts of the
library.
-/

namespace RatThings.Runtime

open Concurrent

variable {state : SessionRuntimeState} {threads natives : List JsonValue}
  {binding : NativeTurnBinding}

/-! ## Acknowledged work -/

/-- A recorded call and its native activity say the same. -/
structure CallAgrees (binding : NativeTurnBinding) (content : ItemContent)
    (call : NativeCoordinationCall) (activity : JsonValue) : Prop where
  threadId : call.threadId = binding.threadId
  turnId : call.turnId = binding.nativeTurnId
  recipient : ∃ recipient, call.recipients = [recipient] ∧
    activity.get? "agentThreadId" = some (.string recipient)
  kind : activity.get? "kind" = (activityKind content).map .string
  settings : ∀ agentId message model reasoningEffort,
    content = .createSubagentCall agentId message model reasoningEffort →
      (∀ name, model = some name → activity.get? "model" = some (.string name)) ∧
        ∀ effort, reasoningEffort = some effort →
          activity.get? "reasoningEffort" = some (.string effort)

/-- The item is a coordination call that the Session has recorded, with the native activity of
it. -/
def Coordinates (state : SessionRuntimeState) (natives : List JsonValue) (item : AgentSessionItem)
    (call : NativeCoordinationCall) (activity : JsonValue) : Prop :=
  activityKind item.content ≠ none ∧ callOf state item = some call ∧
    natives.find? (isActivity item.id) = some activity

def isAgentMessage : ItemContent → Bool
  | .agentMessage _ _ _ => true
  | _ => false

/-- The item has to be found in the native projection: it is no message between agents, and no
coordination call with an activity. -/
def remaining (state : SessionRuntimeState) (natives : List JsonValue) (item : AgentSessionItem) :
    Bool :=
  !isAgentMessage item.content &&
    !((activityKind item.content).isSome && (callOf state item).isSome &&
      (natives.find? (isActivity item.id)).isSome)

/-- The native Turn of a binding, and the thread it is in. -/
def nativeTurn? (threads : List JsonValue) (binding : NativeTurnBinding) :
    Option (JsonValue × JsonValue) := do
  let thread ← threads.find? fun thread ↦ hasId thread binding.threadId
  let turn ← (turnsOf thread).find? fun turn ↦ hasId turn binding.nativeTurnId
  return (thread, turn)

/-- A native Turn holds what the Session has acknowledged of it. -/
structure Holds (state : SessionRuntimeState) (binding : NativeTurnBinding)
    (thread turn : JsonValue) : Prop where
  calls : ∀ item ∈ binding.items, ∀ call activity,
    Coordinates state (itemsOf turn) item call activity →
      CallAgrees binding item.content call activity
  items : List.SublistForall₂
    (fun item native ↦ sameItem (isLegacy thread) item native = true)
    (binding.items.filter (remaining state (itemsOf turn)))
    (projection state binding (itemsOf turn))

/-- The threads are those of the Session, under their recorded parents, and hold its Turns. -/
structure Acknowledged (state : SessionRuntimeState) (threads : List JsonValue) : Prop where
  ids : (threads.map fun thread ↦ thread.get? "id").Perm
    ((expectedIds state).map fun id ↦ some (.string id))
  parents : ∀ thread ∈ threads, ∀ id, hasId thread id = true → id ≠ state.rootThreadId →
    ∃ parent, recordedParent state id = some parent ∧
      thread.get? "parentThreadId" = some (.string parent)
  turns : ∀ binding ∈ state.turns, ∃ thread turn,
    nativeTurn? threads binding = some (thread, turn) ∧ Holds state binding thread turn

/-- The further conditions under which the work can be certified. -/
structure Certifiable (state : SessionRuntimeState) (threads : List JsonValue) : Prop where
  turns : state.turns ≠ []
  agents : ∀ binding ∈ state.turns, ∀ item ∈ binding.items, ∀ sender recipient content,
    item.content = .agentMessage sender recipient content →
      sender ∈ state.agentId :: expectedIds state ∧ recipient ∈ state.agentId :: expectedIds state
  readable : ∀ binding ∈ state.turns, ∀ thread turn,
    nativeTurn? threads binding = some (thread, turn) → ∀ item ∈ binding.items,
      activityKind item.content ≠ none → ∃ activity,
        activityOf item.id (itemsOf turn) = .ok activity
  rooted : ∀ thread ∈ threads, Rooted (startsAt state) (followsParent state) threads thread

/-! ## Threads -/

theorem hasId_iff {value : JsonValue} {id : String} :
    hasId value id = true ↔ value.get? "id" = some (.string id) := by
  simp [hasId, fieldIs]

theorem checkParent_eq_ok {thread : JsonValue} {id : String} (hid : hasId thread id = true) :
    checkParent state thread = .ok () ↔ (id ≠ state.rootThreadId →
      ∃ parent, recordedParent state id = some parent ∧
        thread.get? "parentThreadId" = some (.string parent)) := by
  have hsame : ∀ other, hasId thread other = decide (other = id) := by
    intro other
    rw [hasId_iff] at hid
    simp [hasId, fieldIs, hid, eq_comm]
  simp only [checkParent, hsame, recordedParent]
  by_cases hroot : state.rootThreadId = id
  · simp [hroot]
  · cases state.subagents.find? fun agent ↦ decide (agent.id = id) with
    | none => simp [hroot, Ne.symm hroot]
    | some agent =>
      simp only [hroot, decide_false, Bool.not_false, Bool.true_and, Option.isNone_some,
        Option.map_some, Bool.false_or, Option.some.injEq, exists_eq_left', ne_eq,
        Ne.symm hroot, not_false_eq_true, forall_const]
      simp

/-- Lists of one length without repetitions, one within the other. -/
theorem perm_of_subset {ids expected : List String} (hexpected : expected.Nodup) :
    ids.length = expected.length ∧ ids.dedup.length = expected.length ∧
      (∀ id ∈ ids, id ∈ expected) ↔ ids.Perm expected := by
  constructor
  · rintro ⟨hlength, hdedup, hsubset⟩
    have hnodup : ids.Nodup := by
      rw [← List.dedup_eq_self]
      exact (List.dedup_sublist ids).eq_of_length (hdedup.trans hlength.symm)
    exact (hnodup.subperm hsubset).perm_of_length_le hlength.ge
  · intro hperm
    have hnodup : ids.Nodup := hperm.nodup_iff.mpr hexpected
    exact ⟨hperm.length_eq, by rw [hnodup.dedup]; exact hperm.length_eq,
      fun id hid ↦ hperm.mem_iff.mp hid⟩

theorem checkIdentities_eq_ok
    (hids : ∀ thread ∈ threads, ∃ id, thread.get? "id" = some (.string id)) :
    checkIdentities state threads = .ok () ↔ (threads.map fun thread ↦ thread.get? "id").Perm
      ((expectedIds state).map fun id ↦ some (.string id)) := by
  have hinjective : Function.Injective fun id : String ↦ some (Json.string id) := fun a b h ↦ by
    simpa using h
  have htext : (threads.map fun thread ↦ thread.get? "id") =
      (threads.map fun thread ↦ textOf thread "id").map fun id ↦ some (.string id) := by
    rw [List.map_map]
    refine List.map_congr_left fun thread hthread ↦ ?_
    obtain ⟨id, hid⟩ := hids thread hthread
    simp [textOf, hid, Json.text]
  have hexpected : (expectedIds state).Nodup := List.nodup_dedup _
  rw [htext, List.map_perm_map_iff hinjective, ← perm_of_subset hexpected, checkIdentities, htext,
    List.dedup_map_of_injective hinjective]
  simp only [List.length_map, List.mem_map, forall_exists_index, and_imp,
    forall_apply_eq_imp_iff₂]
  split
  · rename_i hdiffers
    simp only [reduceCtorEq, false_iff]
    rintro ⟨hlength, hdedup, hsubset⟩
    simp only [hlength, hdedup, ne_eq, not_true_eq_false, decide_false, Bool.or_self,
      Bool.false_or, List.any_eq_true, Bool.not_eq_true', List.contains_eq_mem,
      decide_eq_false_iff_not] at hdiffers
    obtain ⟨thread, hthread, hmissing⟩ := hdiffers
    exact hmissing (hsubset thread hthread)
  · rename_i hagrees
    simp only [Bool.or_eq_true, decide_eq_true_eq, not_or, not_not, ne_eq, List.any_eq_true,
      Bool.not_eq_true', List.contains_eq_mem, decide_eq_false_iff_not, not_exists,
        not_and] at hagrees
    exact iff_of_true rfl ⟨hagrees.1.1, hagrees.1.2, hagrees.2⟩

/-! ## Items

An item that is settled needs no counterpart, and asking whether it is may fail. So the check of a
list of items is about those that are not settled, and about those that cannot be asked about. -/

theorem activityOf_eq_ok {id : Option String} {found : Option JsonValue}
    (h : activityOf id natives = .ok found) : natives.find? (isActivity id) = found := by
  fun_induction activityOf id natives with
  | case1 => exact Except.ok.inj h
  | case2 => cases h
  | case3 native natives _ hactivity =>
    rw [List.find?_cons_of_pos hactivity]
    exact Except.ok.inj h
  | case4 native natives _ hactivity ih =>
    rw [List.find?_cons_of_neg hactivity]
    exact ih h

theorem checkSettings_eq_ok {content : ItemContent} {activity : JsonValue} :
    checkSettings content activity = .ok () ↔ ∀ agentId message model reasoningEffort,
      content = .createSubagentCall agentId message model reasoningEffort →
        (∀ name, model = some name → activity.get? "model" = some (.string name)) ∧
          ∀ effort, reasoningEffort = some effort →
            activity.get? "reasoningEffort" = some (.string effort) := by
  cases content with
  | createSubagentCall agentId message model reasoningEffort =>
    have hone : ∀ (setting : Option String) (key : String),
        (setting.isSome && activity.get? key ≠ setting.map .string) = false ↔
          ∀ value, setting = some value → activity.get? key = some (.string value) := by
      intro setting key
      cases setting with
      | none => simp
      | some value => simp
    simp only [checkSettings]
    split
    · rename_i hdiffers
      simp only [reduceCtorEq, false_iff]
      intro hsettings
      obtain ⟨hmodel, heffort⟩ := hsettings agentId message model reasoningEffort rfl
      rw [(hone _ _).mpr hmodel, (hone _ _).mpr heffort] at hdiffers
      exact Bool.false_ne_true hdiffers
    · rename_i hagrees
      rw [Bool.not_eq_true, Bool.or_eq_false_iff, hone, hone] at hagrees
      simp only [true_iff]
      rintro _ _ _ _ ⟨⟩
      exact hagrees
  | _ => simp [checkSettings]

theorem checkCall_eq_ok {content : ItemContent} {call : NativeCoordinationCall}
    {activity : JsonValue} :
    checkCall binding content call activity = .ok () ↔
      CallAgrees binding content call activity := by
  rw [checkCall]
  split
  · rename_i hdiffers
    simp only [reduceCtorEq, false_iff]
    rintro ⟨hthread, hturn, ⟨recipient, hrecipient, hactivity⟩, hkind, -⟩
    simp [hthread, hturn, hrecipient, hactivity, hkind] at hdiffers
  · rename_i hagrees
    simp only [Bool.or_eq_true, decide_eq_true_eq, not_or, not_not, ne_eq] at hagrees
    obtain ⟨⟨⟨⟨hthread, hturn⟩, hone⟩, hactivity⟩, hkind⟩ := hagrees
    obtain ⟨recipient, hrecipient⟩ := List.length_eq_one_iff.mp hone
    rw [hrecipient] at hactivity
    rw [checkSettings_eq_ok]
    exact ⟨fun hsettings ↦ ⟨hthread, hturn, ⟨recipient, hrecipient, hactivity⟩, hkind, hsettings⟩,
      fun h ↦ h.settings⟩

theorem remaining_iff {item : AgentSessionItem} (hmessage : isAgentMessage item.content = false) :
    remaining state natives item = true ↔
      ∀ call activity, ¬ Coordinates state natives item call activity := by
  rw [remaining, hmessage, Bool.not_false, Bool.true_and, Bool.not_eq_true', Bool.eq_false_iff, Ne,
    Bool.and_eq_true, Bool.and_eq_true, Option.isSome_iff_exists, Option.isSome_iff_exists,
    Option.isSome_iff_exists]
  constructor
  · rintro hno call activity ⟨hkind, hcall, hactivity⟩
    exact hno ⟨⟨Option.ne_none_iff_exists'.mp hkind, call, hcall⟩, activity, hactivity⟩
  · rintro hno ⟨⟨hkind, call, hcall⟩, activity, hactivity⟩
    exact hno call activity ⟨Option.ne_none_iff_exists'.mpr hkind, hcall, hactivity⟩

/-- A message between agents passes if both are known, and it needs no counterpart. -/
theorem settled_message {item : AgentSessionItem} {sender recipient : String}
    {content : List AgentContent} {b : Bool}
    (hcontent : item.content = .agentMessage sender recipient content) :
    settled state binding natives item = .ok b ↔ b = true ∧
      sender ∈ state.agentId :: expectedIds state ∧
        recipient ∈ state.agentId :: expectedIds state := by
  rw [settled, hcontent]
  dsimp only
  split
  · rename_i hunknown
    simp only [reduceCtorEq, false_iff]
    rintro ⟨-, hsender, hrecipient⟩
    simp [List.contains_eq_mem, hsender, hrecipient] at hunknown
  · rename_i hknown
    simp only [Bool.or_eq_true, Bool.not_eq_true', List.contains_eq_mem,
      decide_eq_false_iff_not, not_or, not_not] at hknown
    constructor
    · intro h
      obtain rfl := Except.ok.inj h
      exact ⟨rfl, hknown⟩
    · rintro ⟨rfl, -⟩
      rfl

/-- What is no message and no coordination call has its counterpart in the projection. -/
theorem settled_plain {item : AgentSessionItem} (hmessage : isAgentMessage item.content = false)
    (hkind : activityKind item.content = none) :
    settled state binding natives item = .ok false := by
  rw [settled]
  split
  · rename_i hcontent
    rw [hcontent] at hmessage
    cases hmessage
  · rw [hkind]
    rfl

/-- A coordination call whose activity is found has to agree with it; another one has its
counterpart in the projection. -/
theorem settled_call {item : AgentSessionItem} {b : Bool}
    (hmessage : isAgentMessage item.content = false) (hkind : activityKind item.content ≠ none) :
    settled state binding natives item = .ok b ↔ b = !remaining state natives item ∧
      (∃ activity, activityOf item.id natives = .ok activity) ∧
      ∀ call activity, Coordinates state natives item call activity →
        CallAgrees binding item.content call activity := by
  rw [settled]
  split
  · rename_i hcontent
    rw [hcontent] at hmessage
    cases hmessage
  rw [if_neg (by simpa using hkind)]
  cases hactivity : activityOf item.id natives with
  | error e =>
    refine ⟨(fun h ↦ by contradiction), fun h ↦ ?_⟩
    obtain ⟨activity, hok⟩ := h.2.1
    cases hok
  | ok found =>
    have hfind := activityOf_eq_ok hactivity
    have hfound (f : Option JsonValue → Except String Bool) : (Except.ok found >>= f) = f found :=
      rfl
    rw [hfound]
    split
    · rename_i call activity hcall
      have hremaining : remaining state natives item = false := by
        simp [remaining, hmessage, hkind, hcall, hfind, Option.isSome_iff_ne_none]
      have hcoordinates : Coordinates state natives item call activity := ⟨hkind, hcall, hfind⟩
      rw [hremaining, bind_eq_ok]
      constructor
      · rintro ⟨_, hcheck, h⟩
        obtain rfl := Except.ok.inj h
        refine ⟨rfl, ⟨_, rfl⟩, fun call' activity' h' ↦ ?_⟩
        obtain rfl := Option.some.inj (hcall.symm.trans h'.2.1)
        obtain rfl := Option.some.inj (hfind.symm.trans h'.2.2)
        exact checkCall_eq_ok.mp hcheck
      · rintro ⟨rfl, -, hagrees⟩
        exact ⟨(), checkCall_eq_ok.mpr (hagrees call activity hcoordinates), rfl⟩
    · rename_i hneither
      have hno : ∀ call activity, ¬ Coordinates state natives item call activity := by
        rintro call activity ⟨-, hcall, hfound⟩
        exact hneither call activity hcall (hfind.symm.trans hfound)
      rw [(remaining_iff hmessage).mpr hno]
      constructor
      · intro h
        obtain rfl := Except.ok.inj h
        exact ⟨rfl, ⟨_, rfl⟩, fun call activity h ↦ absurd h (hno call activity)⟩
      · rintro ⟨rfl, -⟩
        rfl

/-- An item needs no counterpart, or it does; either way what it says is checked. -/
theorem settled_eq_ok {item : AgentSessionItem} {b : Bool} :
    settled state binding natives item = .ok b ↔ b = !remaining state natives item ∧
      (∀ sender recipient content, item.content = .agentMessage sender recipient content →
        sender ∈ state.agentId :: expectedIds state ∧
          recipient ∈ state.agentId :: expectedIds state) ∧
      (activityKind item.content ≠ none → ∃ activity, activityOf item.id natives = .ok activity) ∧
      ∀ call activity, Coordinates state natives item call activity →
        CallAgrees binding item.content call activity := by
  by_cases hcontent : ∃ sender recipient content,
      item.content = .agentMessage sender recipient content
  · obtain ⟨sender, recipient, content, hcontent⟩ := hcontent
    have hremaining : remaining state natives item = false := by
      simp [remaining, hcontent, isAgentMessage]
    have hkind : activityKind item.content = none := by
      rw [hcontent]
      rfl
    rw [settled_message hcontent, hremaining]
    constructor
    · rintro ⟨rfl, hknown⟩
      refine ⟨rfl, ?_, fun h ↦ absurd hkind h, fun _ _ h ↦ absurd hkind h.1⟩
      intro sender' recipient' content' hcontent'
      obtain ⟨rfl, rfl, rfl⟩ : sender = sender' ∧ recipient = recipient' ∧
          content = content' := by
        simpa using hcontent.symm.trans hcontent'
      exact hknown
    · rintro ⟨rfl, hknown, -⟩
      exact ⟨rfl, hknown sender recipient content hcontent⟩
  · push Not at hcontent
    have hmessage : isAgentMessage item.content = false := by
      cases hc : item.content with
      | agentMessage sender recipient content => exact absurd hc (hcontent sender recipient content)
      | _ => rfl
    have hagents : ∀ sender recipient content,
        item.content = .agentMessage sender recipient content →
          sender ∈ state.agentId :: expectedIds state ∧
            recipient ∈ state.agentId :: expectedIds state :=
      fun sender recipient content h ↦ absurd h (hcontent sender recipient content)
    by_cases hkind : activityKind item.content = none
    · have hremaining : remaining state natives item = true := by
        simp [remaining, hmessage, hkind]
      rw [settled_plain hmessage hkind, hremaining]
      refine ⟨fun h ↦ ?_, fun h ↦ by rw [h.1]; rfl⟩
      obtain rfl := Except.ok.inj h
      exact ⟨rfl, hagents, fun h ↦ absurd hkind h, fun _ _ h ↦ absurd hkind h.1⟩
    · rw [settled_call hmessage hkind]
      exact ⟨fun ⟨hb, hactivity, hcalls⟩ ↦ ⟨hb, hagents, fun _ ↦ hactivity, hcalls⟩,
        fun ⟨hb, _, hactivity, hcalls⟩ ↦ ⟨hb, hactivity hkind, hcalls⟩⟩

/-- The greedy match finds all items that need a counterpart exactly if they are a subsequence. -/
theorem checkItems_eq_ok {settled : AgentSessionItem → Except String Bool} {legacy : Bool}
    {projected items : List AgentSessionItem} {needed : AgentSessionItem → Bool}
    (hsettled : ∀ item b, settled item = .ok b → b = !needed item) (index : ℕ) :
    checkItems settled legacy projected index items = .ok () ↔
      (∀ item ∈ items, ∃ b, settled item = .ok b) ∧
        List.SublistForall₂ (fun item native ↦ sameItem legacy item native = true)
          (items.filter needed) (projected.drop index) := by
  induction items generalizing index with
  | nil => simp [checkItems, List.SublistForall₂.nil]
  | cons item items ih =>
    rw [checkItems, bind_eq_ok, List.forall_mem_cons]
    constructor
    · rintro ⟨b, hb, h⟩
      have hneeded := hsettled item b hb
      cases b with
      | true =>
        obtain ⟨hrest, hsub⟩ := (ih index).mp h
        have hnot : needed item = false := by simpa using hneeded
        rw [List.filter_cons_of_neg (by simp [hnot])]
        exact ⟨⟨⟨true, hb⟩, hrest⟩, hsub⟩
      | false =>
        have hneed : needed item = true := by simpa using hneeded
        rw [if_neg Bool.false_ne_true, findIndexFrom_eq] at h
        rw [List.filter_cons_of_pos hneed, sublistForall₂_cons_iff]
        cases hfind : (projected.drop index).findIdx? (sameItem legacy item) with
        | none => simp [hfind] at h
        | some i =>
          simp only [hfind, Option.map_some] at h
          obtain ⟨hrest, hsub⟩ := (ih (i + index + 1)).mp h
          refine ⟨⟨⟨false, hb⟩, hrest⟩, i, rfl, ?_⟩
          rw [List.drop_drop, Nat.add_comm index (i + 1), Nat.add_right_comm]
          exact hsub
    · rintro ⟨⟨⟨b, hb⟩, hrest⟩, hsub⟩
      refine ⟨b, hb, ?_⟩
      have hneeded := hsettled item b hb
      cases b with
      | true =>
        have hnot : needed item = false := by simpa using hneeded
        rw [List.filter_cons_of_neg (by simp [hnot])] at hsub
        exact (ih index).mpr ⟨hrest, hsub⟩
      | false =>
        have hneed : needed item = true := by simpa using hneeded
        rw [List.filter_cons_of_pos hneed, sublistForall₂_cons_iff] at hsub
        obtain ⟨i, hi, hsub⟩ := hsub
        rw [List.drop_drop, Nat.add_comm index (i + 1), Nat.add_right_comm] at hsub
        rw [if_neg Bool.false_ne_true, findIndexFrom_eq, hi]
        exact (ih (i + index + 1)).mpr ⟨hrest, hsub⟩

/-! ## Turns -/

/-- A Turn passes where it is present, holds what is acknowledged, and can be checked. -/
theorem checkTurn_eq_ok : checkTurn state threads binding = .ok () ↔
    (∃ thread turn, nativeTurn? threads binding = some (thread, turn) ∧
      Holds state binding thread turn) ∧
    (∀ item ∈ binding.items, ∀ sender recipient content,
      item.content = .agentMessage sender recipient content →
        sender ∈ state.agentId :: expectedIds state ∧
          recipient ∈ state.agentId :: expectedIds state) ∧
    ∀ thread turn, nativeTurn? threads binding = some (thread, turn) → ∀ item ∈ binding.items,
      activityKind item.content ≠ none →
        ∃ activity, activityOf item.id (itemsOf turn) = .ok activity := by
  rw [checkTurn, nativeTurn?]
  cases hthread : threads.find? fun thread ↦ hasId thread binding.threadId with
  | none => simp
  | some thread =>
    cases hturn : (turnsOf thread).find? fun turn ↦ hasId turn binding.nativeTurnId with
    | none => simp [hturn]
    | some turn =>
      simp only [hturn, Option.bind_eq_bind, Option.bind_some, Option.pure_def, Option.some.injEq,
        Prod.mk.injEq]
      rw [checkItems_eq_ok (fun item b hb ↦ (settled_eq_ok.mp hb).1) 0, List.drop_zero]
      constructor
      · rintro ⟨hsettled, hsub⟩
        have hall : ∀ item ∈ binding.items, ∃ b, _ := fun item hitem ↦
          (hsettled item hitem).imp fun b hb ↦ settled_eq_ok.mp hb
        refine ⟨⟨thread, turn, ⟨rfl, rfl⟩, ⟨fun item hitem ↦ ?_, hsub⟩⟩, fun item hitem ↦ ?_, ?_⟩
        · obtain ⟨b, -, -, -, hcalls⟩ := hall item hitem
          exact hcalls
        · obtain ⟨b, -, hagents, -⟩ := hall item hitem
          exact hagents
        · rintro _ _ ⟨rfl, rfl⟩ item hitem
          obtain ⟨b, -, -, hreadable, -⟩ := hall item hitem
          exact hreadable
      · rintro ⟨⟨_, _, ⟨rfl, rfl⟩, hholds⟩, hagents, hreadable⟩
        exact ⟨fun item hitem ↦ ⟨_, settled_eq_ok.mpr ⟨rfl, hagents item hitem,
          hreadable thread turn ⟨rfl, rfl⟩ item hitem, hholds.calls item hitem⟩⟩, hholds.items⟩

/-! ## The plan -/

variable {stringifyLength : JsonValue → ℕ} {digest : HostJournal → String}
  {histories : List JsonValue}

theorem id_of_nativeThreadHistory {value thread : JsonValue}
    (h : nativeThreadHistory stringifyLength value = .ok thread) :
    ∃ id, thread.get? "id" = some (.string id) := by
  rw [nativeThreadHistory] at h
  split at h
  · cases h
  rename_i hsupported
  split at h
  · cases h
  split at h
  · cases h
  obtain rfl := Except.ok.inj h
  simp only [Bool.or_eq_true, not_or] at hsupported
  obtain ⟨⟨⟨⟨⟨-, hid⟩, -⟩, -⟩, -⟩, -⟩ := hsupported
  cases hstring : stringOf value "id" with
  | none => simp [hstring] at hid
  | some id =>
    obtain ⟨field, hfield, hstring⟩ := Option.bind_eq_some_iff.mp hstring
    cases field with
    | string text =>
      refine ⟨text, ?_⟩
      change (historyFields.filterMap fun key ↦ (value.get? key).map (key, ·)).lookup "id" = _
      simp [historyFields, hfield]
    | _ => cases hstring

/-- The checks before the ordering. -/
theorem certifiedThreads_eq_ok
    (hcompleted : ∀ binding ∈ state.turns, binding.turn.status = .completed)
    (hactions : state.requiredActions = []) :
    certifiedThreads state stringifyLength histories = .ok threads ↔
      histories.mapM (nativeThreadHistory stringifyLength) = .ok threads ∧
        Acknowledged state threads ∧ state.turns ≠ [] ∧
        (∀ binding ∈ state.turns, ∀ item ∈ binding.items, ∀ sender recipient content,
          item.content = .agentMessage sender recipient content →
            sender ∈ state.agentId :: expectedIds state ∧
              recipient ∈ state.agentId :: expectedIds state) ∧
        ∀ binding ∈ state.turns, ∀ thread turn,
          nativeTurn? threads binding = some (thread, turn) → ∀ item ∈ binding.items,
            activityKind item.content ≠ none →
              ∃ activity, activityOf item.id (itemsOf turn) = .ok activity := by
  rw [certifiedThreads]
  by_cases hturns : state.turns = []
  · rw [if_pos (.inl hturns)]
    exact ⟨(nomatch ·), fun h ↦ absurd hturns h.2.2.1⟩
  rw [if_neg (by simpa [hturns, hactions] using hcompleted)]
  constructor
  · intro h
    obtain ⟨threads', hthreads, h⟩ := bind_eq_ok.mp h
    obtain ⟨_, hparents, h⟩ := bind_eq_ok.mp h
    obtain ⟨_, hidentities, h⟩ := bind_eq_ok.mp h
    obtain ⟨_, hchecked, h⟩ := bind_eq_ok.mp h
    obtain rfl := Except.ok.inj h
    have hids : ∀ thread ∈ threads', ∃ id, thread.get? "id" = some (.string id) := by
      intro thread hthread
      obtain ⟨value, -, hvalue⟩ := exists_of_mapM_eq_ok hthreads thread hthread
      exact id_of_nativeThreadHistory hvalue
    have hturn := fun binding hbinding ↦
      checkTurn_eq_ok.mp (forM_eq_ok.mp hchecked binding hbinding)
    refine ⟨hthreads, ⟨(checkIdentities_eq_ok hids).mp hidentities, fun thread hthread id hid ↦ ?_,
      fun binding hbinding ↦ (hturn binding hbinding).1⟩, hturns,
      fun binding hbinding ↦ (hturn binding hbinding).2.1,
      fun binding hbinding ↦ (hturn binding hbinding).2.2⟩
    exact (checkParent_eq_ok hid).mp (forM_eq_ok.mp hparents thread hthread)
  · rintro ⟨hthreads, hacknowledged, -, hagents, hreadable⟩
    have hids : ∀ thread ∈ threads, ∃ id, thread.get? "id" = some (.string id) := by
      intro thread hthread
      obtain ⟨value, -, hvalue⟩ := exists_of_mapM_eq_ok hthreads thread hthread
      exact id_of_nativeThreadHistory hvalue
    refine bind_eq_ok.mpr ⟨threads, hthreads, bind_eq_ok.mpr ⟨(), ?_, bind_eq_ok.mpr ⟨(), ?_,
      bind_eq_ok.mpr ⟨(), ?_, rfl⟩⟩⟩⟩
    · refine forM_eq_ok.mpr fun thread hthread ↦ ?_
      obtain ⟨id, hid⟩ := hids thread hthread
      rw [← hasId_iff] at hid
      exact (checkParent_eq_ok hid).mpr (hacknowledged.parents thread hthread id hid)
    · exact (checkIdentities_eq_ok hids).mpr hacknowledged.ids
    · exact forM_eq_ok.mpr fun binding hbinding ↦ checkTurn_eq_ok.mpr
        ⟨hacknowledged.turns binding hbinding, hagents binding hbinding,
          hreadable binding hbinding⟩

/-- **What a plan certifies.** For a Session whose Turns are all completed and that waits for
nothing, planning ends. It succeeds exactly if the histories are well formed, hold all acknowledged
work, and can be certified; then the threads are those of the histories, parents first. -/
theorem planNativeCheckpoint_iff (stringifyLength : JsonValue → ℕ) (digest : HostJournal → String)
    (state : SessionRuntimeState) (histories : List JsonValue)
    (hcompleted : ∀ binding ∈ state.turns, binding.turn.status = .completed)
    (hactions : state.requiredActions = []) :
    planNativeCheckpoint state stringifyLength digest histories ≠ none ∧
      ((∃ manifest, planNativeCheckpoint state stringifyLength digest histories =
          some (.ok manifest)) ↔
        ∃ threads, histories.mapM (nativeThreadHistory stringifyLength) = .ok threads ∧
          Acknowledged state threads ∧ Certifiable state threads) ∧
      ∀ manifest, planNativeCheckpoint state stringifyLength digest histories =
          some (.ok manifest) →
        ∃ threads, histories.mapM (nativeThreadHistory stringifyLength) = .ok threads ∧
          manifest.threads.Perm threads ∧
          InReadyOrder (startsAt state) (followsParent state) manifest.threads := by
  have hcertified := fun threads ↦
    @certifiedThreads_eq_ok state threads stringifyLength histories hcompleted hactions
  cases hthreads : certifiedThreads state stringifyLength histories with
  | error e =>
    have hplan : planNativeCheckpoint state stringifyLength digest histories =
        some (.error e) := by rw [planNativeCheckpoint, hthreads]
    rw [hplan]
    refine ⟨Option.some_ne_none _, ⟨by rintro ⟨_, h⟩; simp at h, ?_⟩, fun _ h ↦ by simp at h⟩
    rintro ⟨threads, hread, hacknowledged, hcertifiable⟩
    have hok := (hcertified threads).mpr ⟨hread, hacknowledged, hcertifiable.turns,
      hcertifiable.agents, hcertifiable.readable⟩
    rw [hthreads] at hok
    cases hok
  | ok threads =>
    obtain ⟨hread, hacknowledged, hturns, hagents, hreadable⟩ := (hcertified threads).mp hthreads
    have hstart : InReadyOrder (startsAt state) (followsParent state) [] := by
      intro before a after heq
      exact absurd heq.symm (by simp)
    obtain ⟨result, hresult, hordered, hrooted⟩ :=
      readyOrder_spec (List.Perm.refl ([] ++ threads)) hstart le_rfl
    have hplan : planNativeCheckpoint state stringifyLength digest histories =
        some (result.elim (.error "Native checkpoint parent identities are incomplete")
          fun ordered ↦ .ok ⟨state.rootThreadId, digest (hostJournal state), ordered⟩) := by
      unfold planNativeCheckpoint
      simp only [hthreads]
      refine (congrArg (Option.map _) hresult).trans ?_
      cases result <;> rfl
    rw [hplan]
    refine ⟨Option.some_ne_none _, ⟨?_, ?_⟩, ?_⟩
    · rintro ⟨manifest, h⟩
      refine ⟨threads, hread, hacknowledged, hturns, hagents, hreadable, hrooted.mp ?_⟩
      rintro rfl
      cases h
    · rintro ⟨threads', hread', -, hcertifiable⟩
      obtain rfl := Except.ok.inj (hread.symm.trans hread')
      cases result with
      | none => exact absurd rfl (hrooted.mpr hcertifiable.rooted)
      | some ordered => exact ⟨_, rfl⟩
    · rintro manifest h
      cases result with
      | none => cases h
      | some ordered =>
        obtain rfl := Except.ok.inj (Option.some.inj h)
        exact ⟨threads, hread, hordered ordered rfl⟩

/-! ### Samples -/

def sampleHistory (id : String) (parent : JsonValue) (items : List JsonValue) : JsonValue :=
  .object [("id", .string id), ("parentThreadId", parent), ("ephemeral", .bool false),
    ("historyMode", .string "paginated"), ("turns", .array [.object [("id", .string "native"),
      ("status", .string "completed"), ("items", .array items)]])]

/-- A completed Turn of the root. -/
def sampleBinding (items : List AgentSessionItem) : NativeTurnBinding where
  threadId := "root"
  nativeTurnId := "native"
  turn := ⟨"turn", "session", "agent", none, .completed, 0, some 0, some 1, none, none⟩
  items

def sampleSubagent (id parent : String) : Subagent :=
  ⟨id, "session", parent, none, none, 0, none, false⟩

def sampleSession (subagents : List Subagent) (turns : List NativeTurnBinding) :
    SessionRuntimeState :=
  { initialSessionRuntime "session" "agent" "root" with subagents, turns }

/-- The call is recorded nowhere, so it has to be found in the native projection. -/
def sampleCall : AgentSessionItem :=
  ⟨some "call", "turn", some .completed, .interruptSubagentCall "agent" "child"⟩

def sampleNativeCall : JsonValue :=
  .object [("type", .string "collabAgentToolCall"), ("id", .string "call"),
    ("tool", .string "interruptAgent"), ("senderThreadId", .string "root"),
    ("receiverThreadIds", .array [.string "child"]), ("status", .string "completed")]

/-- A message from an agent that the Session does not know. -/
def sampleUnknownSender : AgentSessionItem :=
    ⟨some "message", "turn", none, .agentMessage "x" "agent" []⟩

/-- The history of a thread that is not kept. -/
def sampleEphemeral : JsonValue :=
  .object [("id", .string "root"), ("parentThreadId", .null), ("ephemeral", .bool true),
    ("historyMode", .string "paginated"), ("turns", .array [.object [("id", .string "native"),
      ("status", .string "completed"), ("items", .array [])]])]

theorem sampleSession_acknowledged {subagents : List Subagent} {turns : List NativeTurnBinding}
    (hids : (threads.map fun thread ↦ thread.get? "id").Perm
      ((expectedIds (sampleSession subagents turns)).map fun id ↦ some (.string id)))
    (hparents : ∀ thread ∈ threads, checkParent (sampleSession subagents turns) thread = .ok ())
    (hturns : ∀ binding ∈ turns, ∃ thread turn, nativeTurn? threads binding = some (thread, turn) ∧
      Holds (sampleSession subagents turns) binding thread turn) :
    Acknowledged (sampleSession subagents turns) threads :=
  ⟨hids, fun thread hthread _ hid ↦ (checkParent_eq_ok hid).mp (hparents thread hthread), hturns⟩

def turnMessage (turnId : String) : AgentSessionItem :=
  ⟨some "message", turnId, some .completed, .message .assistant [.outputText "Done."] none⟩

def sampleNativeMessage : JsonValue :=
  .object [("type", .string "agentMessage"), ("id", .string "message"), ("text", .string "Done.")]

/-- A root that has made a child, and both have answered. -/
def sampleCoordinated : SessionRuntimeState :=
  { sampleSession [sampleSubagent "child" "agent"]
      [sampleBinding [⟨some "spawn", "turn", some .completed,
          .createSubagentCall "child" [] (some "small") none⟩, turnMessage "turn"],
        { sampleBinding [turnMessage "turn_child_native"] with
          threadId := "child"
          turn := ⟨"turn_child_native", "session", "child", some "child", .completed, 0, some 0,
            some 1, none, none⟩ }] with
    coordinationCalls := OrderedMap.empty.set "spawn"
      ⟨"root", "native", "spawn_agent", .null, ["child"], false⟩ }

/-- The histories of both, the child's first. -/
def sampleHistories : List JsonValue :=
  [sampleHistory "child" (.string "root") [sampleNativeMessage],
    sampleHistory "root" .null [.object [("type", .string "subAgentActivity"),
      ("id", .string "spawn"), ("kind", .string "started"), ("agentThreadId", .string "child"),
      ("model", .string "small")], sampleNativeMessage]]

/-- The work of both is certified, and the root's thread comes first. -/
theorem planNativeCheckpoint_sample :
    ∃ manifest, planNativeCheckpoint sampleCoordinated (fun _ ↦ 283) HostJournal.rootThreadId
        sampleHistories = some (.ok manifest) ∧
      manifest.threads.map (·.get? "id") = [some (.string "root"), some (.string "child")] ∧
      ∃ threads, sampleHistories.mapM (nativeThreadHistory fun _ ↦ 283) = .ok threads ∧
        Acknowledged sampleCoordinated threads ∧ Certifiable sampleCoordinated threads := by
  obtain ⟨-, hplanned, -⟩ := planNativeCheckpoint_iff (fun _ ↦ 283) HostJournal.rootThreadId
    sampleCoordinated sampleHistories (by decide) rfl
  have hthreads : (planNativeCheckpoint sampleCoordinated (fun _ ↦ 283) HostJournal.rootThreadId
      sampleHistories).map (·.toOption.map fun manifest ↦ manifest.threads.map (·.get? "id")) =
        some (some [some (.string "root"), some (.string "child")]) := by decide
  obtain ⟨result, hresult, hthreads⟩ := Option.map_eq_some_iff.mp hthreads
  obtain ⟨manifest, hmanifest, hids⟩ := Option.map_eq_some_iff.mp hthreads
  obtain rfl : result = .ok manifest := by
    cases result with
    | error e => cases hmanifest
    | ok _ => rw [Option.some.inj hmanifest]
  exact ⟨manifest, hresult, hids, hplanned.mp ⟨manifest, hresult⟩⟩

theorem holds_empty {thread turn : JsonValue} :
    Holds state (sampleBinding []) thread turn :=
  ⟨fun _ h ↦ absurd h List.not_mem_nil, .nil⟩

/-- Acknowledged work that is not certified: there is no Turn, the parents form a cycle, an agent is
unknown, a native item in front of an activity cannot be read, or a history is ephemeral. -/
theorem acknowledged_not_planned :
    (Acknowledged (sampleSession [] []) [sampleHistory "root" .null []] ∧
      planNativeCheckpoint (sampleSession [] []) (fun _ ↦ 137) HostJournal.rootThreadId
          [sampleHistory "root" .null []] =
        some (.error "Native checkpoint requires completed Session history")) ∧
    (Acknowledged (sampleSession [sampleSubagent "a" "b", sampleSubagent "b" "a"]
      [sampleBinding []])
        [sampleHistory "root" .null [], sampleHistory "a" (.string "b") [],
          sampleHistory "b" (.string "a") []] ∧
      planNativeCheckpoint
          (sampleSession [sampleSubagent "a" "b", sampleSubagent "b" "a"] [sampleBinding []])
          (fun _ ↦ 137) HostJournal.rootThreadId
          [sampleHistory "root" .null [], sampleHistory "a" (.string "b") [],
            sampleHistory "b" (.string "a") []] =
        some (.error "Native checkpoint parent identities are incomplete")) ∧
    (Acknowledged (sampleSession [] [sampleBinding [sampleUnknownSender]])
        [sampleHistory "root" .null []] ∧
      planNativeCheckpoint (sampleSession [] [sampleBinding [sampleUnknownSender]]) (fun _ ↦ 137)
          HostJournal.rootThreadId [sampleHistory "root" .null []] =
        some (.error "Native checkpoint has an unknown coordination recipient")) ∧
    (Acknowledged (sampleSession [] [sampleBinding [sampleCall]])
        [sampleHistory "root" .null [.null, sampleNativeCall]] ∧
      planNativeCheckpoint (sampleSession [] [sampleBinding [sampleCall]]) (fun _ ↦ 283)
          HostJournal.rootThreadId [sampleHistory "root" .null [.null, sampleNativeCall]] =
        some (.error "Cannot read properties of null (reading 'type')")) ∧
    (Acknowledged (sampleSession [] [sampleBinding []]) [sampleEphemeral] ∧
      planNativeCheckpoint (sampleSession [] [sampleBinding []]) (fun _ ↦ 136)
          HostJournal.rootThreadId [sampleEphemeral] =
        some (.error "Native checkpoint history is unavailable or unsupported")) := by
  refine ⟨⟨?_, rfl⟩, ⟨?_, rfl⟩, ⟨?_, rfl⟩, ⟨?_, rfl⟩, ⟨?_, rfl⟩⟩
  · refine sampleSession_acknowledged (by decide) ?_ (by simp)
    exact List.forall_mem_singleton.mpr rfl
  · refine sampleSession_acknowledged (by decide) ?_ ?_
    · simp only [List.forall_mem_cons, List.not_mem_nil, false_implies, implies_true, and_true]
      exact ⟨rfl, rfl, rfl⟩
    · exact List.forall_mem_singleton.mpr ⟨_, _, rfl, holds_empty⟩
  · refine sampleSession_acknowledged (by decide) (List.forall_mem_singleton.mpr rfl)
      (List.forall_mem_singleton.mpr ⟨_, _, rfl, ?_, .nil⟩)
    exact List.forall_mem_singleton.mpr fun _ _ h ↦ absurd rfl h.1
  · refine sampleSession_acknowledged (by decide) (List.forall_mem_singleton.mpr rfl)
      (List.forall_mem_singleton.mpr ⟨_, _, rfl, ?_, ?_⟩)
    · exact List.forall_mem_singleton.mpr fun _ _ h ↦ nomatch h.2.1
    · exact .cons (by decide) .nil
  · refine sampleSession_acknowledged (by decide) (List.forall_mem_singleton.mpr rfl)
      (List.forall_mem_singleton.mpr ⟨_, _, rfl, holds_empty⟩)

end RatThings.Runtime
