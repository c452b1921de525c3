import Mathlib.Data.Fintype.EquivFin
import Mathlib.Data.List.Sort
import Mathlib.Data.String.Basic
import RatThings.Library.Anchors
import RatThings.Sessions.Record

/-!
# The items of a Turn

What a Turn shows is put together from two sources: the items its execution put out, and the input
the Session accepted for it, messages and tool results. An accepted item names the item it comes
after, its anchor, which was the last item of the Turn when it was accepted. The anchor may be an
output, or itself an accepted item.

The native execution echoes the tool results it was given. An echo of an accepted result is left
out, since the accepted receipt is the one that is shown.

## A shared anchor

Accepted items with one anchor are to be shown in the order they were accepted in. They are, where
the anchor is an output. Where it is an accepted item, they are shown in the reverse order.
-/

namespace RatThings

open Concurrent

/-! ## Items -/

inductive AgentSessionItem : Type
  | message (id role : String) (content : List String) (phase : Option String)
      (status turnId : String)
  | functionCall (id callId name arguments status turnId : String)
  | functionCallOutput (result : FunctionResultItem)
  | other (id turnId text : String)
deriving DecidableEq, Repr

namespace AgentSessionItem

def id : AgentSessionItem → String
  | message id _ _ _ _ _ => id
  | functionCall id _ _ _ _ _ => id
  | functionCallOutput result => result.id
  | other id _ _ => id

/-- The item is the function call of that id. -/
def calls (callId : String) : AgentSessionItem → Bool
  | functionCall _ call _ _ _ _ => call == callId
  | _ => false

/-- The call whose result the item is. -/
def resultOf : AgentSessionItem → Option String
  | functionCallOutput result => some result.callId
  | _ => none

end AgentSessionItem

/-- An accepted item with its anchor. -/
abbrev Insertion : Type := Anchored AgentSessionItem String

section

variable (state : SessionState) (binding : SessionTurnBinding)

def userItem (message : SessionMessage) : AgentSessionItem :=
  .message message.id "user" message.message.content none "completed" binding.turn.id

/-- The item of a receipt's command. -/
def functionResultItem (key : String) (index : ℕ) (turnId : String) (event : ToolResultInput) :
    FunctionResultItem :=
  ⟨"fresult_" ++ key ++ "_" ++ toString index, turnId, event.callId, event.output, event.error,
    event.success⟩

/-- What was accepted for the Turn: its messages, and the tool results of the receipts, each with
the anchor that was recorded for it. -/
def acceptedItems : List Insertion :=
  binding.input.map (fun message ↦
    ⟨userItem binding message, message.afterItemId, message.acceptedOrdinal⟩) ++
  state.receipts.entries.flatMap fun (key, receipt) ↦
    receipt.commands.zipIdx.filterMap fun (command, index) ↦ match command with
      | .toolResult turnId afterItemId acceptedOrdinal event =>
        if turnId = binding.turn.id then
          some ⟨.functionCallOutput (functionResultItem key index turnId event), afterItemId,
            acceptedOrdinal⟩
        else none
      | _ => none

/-- A tool result without a recorded anchor comes after its function call. -/
def resolveAnchor (outputs : List AgentSessionItem) (entry : Insertion) : Insertion :=
  { entry with after := entry.after <|> entry.item.resultOf.bind fun callId ↦
      (outputs.find? (·.calls callId)).map (·.id) }

/-- The accepted items in the order of their ordinals. -/
def insertions (outputs : List AgentSessionItem) : List Insertion :=
  ((acceptedItems state binding).map (resolveAnchor outputs)).insertionSort
    fun a b ↦ a.ordinal ≤ b.ordinal

def acceptedCalls : List String :=
  ((functionResultItems state).filter fun item ↦ item.turnId == binding.turn.id).map (·.callId)

/-- The output repeats an accepted result. -/
def isEcho (item : AgentSessionItem) : Bool :=
  item.resultOf.any fun callId ↦ (acceptedCalls state binding).contains callId

/-- The outputs that are shown. -/
def shownOutputs (outputs : List AgentSessionItem) : List AgentSessionItem :=
  outputs.filter fun item ↦ !isEcho state binding item

def orderedTurnItems (outputs : List AgentSessionItem) : List AgentSessionItem :=
  placeAll AgentSessionItem.id (shownOutputs state binding outputs)
    (insertions state binding outputs)

/-! ## What is promised -/

/-- What the ids, the ordinals and the anchors of a Turn's items keep. -/
structure WellAnchored (outputs : List AgentSessionItem) : Prop where
  ids : (outputs.map (·.id) ++ (acceptedItems state binding).map (·.item.id)).Nodup
  ordinals : ((acceptedItems state binding).map (·.ordinal)).Nodup
  anchors : ∀ entry ∈ acceptedItems state binding, ∀ a ∈ entry.after,
    a ∈ (shownOutputs state binding outputs).map (·.id) ∨
      ∃ other ∈ acceptedItems state binding, other.item.id = a ∧ other.ordinal < entry.ordinal

/-- What is shown has every accepted item and every output once, in an order that keeps the
outputs', the anchors' and that of acceptance, and that stays when the execution puts out more. -/
structure TranscriptKept (outputs : List AgentSessionItem) : Prop where
  contents : (orderedTurnItems state binding outputs).Perm
    (shownOutputs state binding outputs ++ (acceptedItems state binding).map (·.item))
  outputs_kept : (shownOutputs state binding outputs).Sublist
    (orderedTurnItems state binding outputs)
  anchored : ∀ entry ∈ insertions state binding outputs, ∀ a ∈ entry.after,
    ∃ y, y.id = a ∧ Before (orderedTurnItems state binding outputs) y entry.item
  ordered : ∀ entry ∈ insertions state binding outputs,
    ∀ other ∈ insertions state binding outputs, entry.after = other.after →
      entry.ordinal < other.ordinal →
        Before (orderedTurnItems state binding outputs) entry.item other.item
  appended : ∀ item, item.id ∉ outputs.map (·.id) ++ (acceptedItems state binding).map (·.item.id) →
    orderedTurnItems state binding (outputs ++ [item]) = orderedTurnItems state binding outputs ∨
      orderedTurnItems state binding (outputs ++ [item]) =
        orderedTurnItems state binding outputs ++ [item]

/-- No accepted item is the anchor of two others, and a tool result whose anchor was not recorded
finds its call. -/
structure AnchorsApart (outputs : List AgentSessionItem) : Prop where
  shared : ∀ entry ∈ insertions state binding outputs,
    ∀ other ∈ insertions state binding outputs, entry.after = other.after →
      entry.ordinal < other.ordinal → ∀ a ∈ entry.after,
        a ∈ (shownOutputs state binding outputs).map (·.id)
  calls : ∀ entry ∈ acceptedItems state binding,
    entry.after = none → ∀ callId ∈ entry.item.resultOf,
    outputs.any (·.calls callId)

end

/-! ## The accepted items in order -/

section

variable {state : SessionState} {binding : SessionTurnBinding} {outputs : List AgentSessionItem}

theorem insertions_perm :
    (insertions state binding outputs).Perm
      ((acceptedItems state binding).map (resolveAnchor outputs)) :=
  List.perm_insertionSort _ _

theorem mem_insertions {entry : Insertion} :
    entry ∈ insertions state binding outputs ↔
      ∃ other ∈ acceptedItems state binding, resolveAnchor outputs other = entry := by
  rw [insertions_perm.mem_iff, List.mem_map]

theorem map_insertions {β : Type} (f : Insertion → β)
    (hf : ∀ entry, f (resolveAnchor outputs entry) = f entry) :
    ((insertions state binding outputs).map f).Perm ((acceptedItems state binding).map f) := by
  refine (insertions_perm.map f).trans ?_
  rw [List.map_map, Function.comp_def, List.map_congr_left fun entry _ ↦ hf entry]

theorem insertions_sorted (h : WellAnchored state binding outputs) :
    (insertions state binding outputs).Pairwise fun a b ↦ a.ordinal < b.ordinal := by
  have hsorted : (insertions state binding outputs).Pairwise fun a b ↦ a.ordinal ≤ b.ordinal := by
    have : Std.Total fun a b : Insertion ↦ a.ordinal ≤ b.ordinal := ⟨fun a b ↦ Nat.le_total _ _⟩
    have : IsTrans Insertion fun a b ↦ a.ordinal ≤ b.ordinal := ⟨fun a b c ↦ Nat.le_trans⟩
    exact List.pairwise_insertionSort _ _
  have hdistinct : ((insertions state binding outputs).map (·.ordinal)).Nodup :=
    (map_insertions (·.ordinal) fun _ ↦ rfl).nodup_iff.mpr h.ordinals
  exact (hsorted.and (List.pairwise_map.mp hdistinct)).imp fun ⟨hle, hne⟩ ↦ lt_of_le_of_ne hle hne

/-- In a sorted list the pairs are those whose ordinals say so. -/
theorem pairwise_iff_ordinal {l : List Insertion} {P : Insertion → Insertion → Prop}
    (hsorted : l.Pairwise fun a b ↦ a.ordinal < b.ordinal) :
    l.Pairwise P ↔ ∀ a ∈ l, ∀ b ∈ l, a.ordinal < b.ordinal → P a b := by
  constructor
  · intro hpairs
    have hforward : l.Pairwise fun a b ↦ a.ordinal < b.ordinal → P a b := by
      refine hpairs.imp ?_
      intro a b hP _
      exact hP
    refine hforward.forall_of_forall_of_flip (fun a _ hlt ↦ absurd hlt (lt_irrefl _)) ?_
    exact hsorted.imp fun hlt hgt ↦ absurd hgt (lt_asymm hlt)
  · intro h
    exact hsorted.imp_of_mem fun ha hb hlt ↦ h _ ha _ hb hlt

/-- The anchor of an accepted item is shown, or was accepted before it. -/
theorem WellAnchored.anchor (h : WellAnchored state binding outputs) {entry : Insertion}
    (hentry : entry ∈ insertions state binding outputs) {a : String} (ha : entry.after = some a) :
    a ∈ (shownOutputs state binding outputs).map (·.id) ∨
      ∃ other ∈ insertions state binding outputs, other.item.id = a ∧
        other.ordinal < entry.ordinal := by
  obtain ⟨accepted, hmem, rfl⟩ := mem_insertions.mp hentry
  cases hrecorded : accepted.after with
  | some b =>
    have hab : b = a := by
      rw [resolveAnchor, hrecorded] at ha
      exact Option.some_inj.mp ha
    subst hab
    refine (h.anchors accepted hmem b hrecorded).imp_right ?_
    rintro ⟨other, hother, hid, hlt⟩
    exact ⟨resolveAnchor outputs other, mem_insertions.mpr ⟨other, hother, rfl⟩, hid, hlt⟩
  | none =>
    rw [resolveAnchor, hrecorded] at ha
    change (accepted.item.resultOf.bind _) = some a at ha
    rw [Option.bind_eq_some_iff] at ha
    obtain ⟨callId, -, hfound⟩ := ha
    obtain ⟨call, hcall, rfl⟩ := Option.map_eq_some_iff.mp hfound
    refine .inl (List.mem_map_of_mem (List.mem_filter.mpr ⟨List.mem_of_find?_eq_some hcall, ?_⟩))
    have hcalls := List.find?_some hcall
    cases call with
    | functionCall => rfl
    | _ => nomatch hcalls

theorem WellAnchored.ordered (h : WellAnchored state binding outputs) :
    Anchored.Ordered AgentSessionItem.id (shownOutputs state binding outputs)
      (insertions state binding outputs) := by
  constructor
  · have hids : ((insertions state binding outputs).map (·.item.id)).Perm
        ((acceptedItems state binding).map (·.item.id)) := map_insertions _ fun _ ↦ rfl
    refine ((hids.append_left _).nodup_iff).mpr (h.ids.sublist ?_)
    exact (List.filter_sublist.map _).append_right _
  · intro before entry rest hall a ha
    have hentry : entry ∈ insertions state binding outputs := hall ▸ by simp
    refine (h.anchor hentry ha).imp_right ?_
    rintro ⟨other, hother, rfl, hlt⟩
    have hsorted := insertions_sorted h
    rw [hall] at hother hsorted
    obtain ⟨-, htail, -⟩ := List.pairwise_append.mp hsorted
    have hmem : other ∈ before := by
      rcases List.mem_append.mp hother with hbefore | hrest
      · exact hbefore
      · rcases List.mem_cons.mp hrest with rfl | hrest
        · exact absurd hlt (lt_irrefl _)
        · exact absurd ((List.pairwise_cons.mp htail).1 other hrest) (lt_asymm hlt)
    exact List.mem_map_of_mem hmem

end

/-! ## More output -/

section

variable {state : SessionState} {binding : SessionTurnBinding} {outputs : List AgentSessionItem}
  {item : AgentSessionItem}

theorem shownOutputs_append : shownOutputs state binding (outputs ++ [item]) =
    shownOutputs state binding outputs ++ if isEcho state binding item then [] else [item] := by
  rw [shownOutputs, List.filter_append]
  cases hecho : isEcho state binding item <;> simp [shownOutputs, hecho]

/-- The anchors stay as they are, unless the new output is a call that was missing. -/
theorem resolveAnchor_append {entry : Insertion}
    (h : entry.after = none → ∀ callId ∈ entry.item.resultOf, outputs.any (·.calls callId)) :
    resolveAnchor (outputs ++ [item]) entry = resolveAnchor outputs entry := by
  unfold resolveAnchor
  cases hafter : entry.after with
  | some a => rfl
  | none =>
    cases hresult : entry.item.resultOf with
    | none => rfl
    | some callId =>
      have hfound := List.any_eq_true.mp (h hafter callId hresult)
      obtain ⟨call, hcall⟩ := Option.isSome_iff_exists.mp (List.find?_isSome.mpr hfound)
      simp [List.find?_append, hcall]

theorem insertions_append (h : AnchorsApart state binding outputs) :
    insertions state binding (outputs ++ [item]) = insertions state binding outputs := by
  have hmap : (acceptedItems state binding).map (resolveAnchor (outputs ++ [item])) =
      (acceptedItems state binding).map (resolveAnchor outputs) :=
    List.map_congr_left fun entry hentry ↦ resolveAnchor_append (h.calls entry hentry)
  rw [insertions, insertions, hmap]

theorem WellAnchored.append (h : WellAnchored state binding outputs)
    (hitem : item.id ∉ outputs.map (·.id) ++ (acceptedItems state binding).map (·.item.id)) :
    WellAnchored state binding (outputs ++ [item]) := by
  refine ⟨?_, h.ordinals, fun entry hentry a ha ↦ ?_⟩
  · rw [List.map_append, List.append_assoc, List.map_singleton, List.singleton_append,
      List.nodup_middle]
    exact List.nodup_cons.mpr ⟨hitem, h.ids⟩
  · refine (h.anchors entry hentry a ha).imp_left fun hin ↦ ?_
    rw [shownOutputs_append, List.map_append]
    exact List.mem_append_left _ hin

theorem orderedTurnItems_append (h : WellAnchored state binding outputs)
    (hapart : AnchorsApart state binding outputs)
    (hitem : item.id ∉ outputs.map (·.id) ++ (acceptedItems state binding).map (·.item.id)) :
    orderedTurnItems state binding (outputs ++ [item]) = orderedTurnItems state binding outputs ∨
      orderedTurnItems state binding (outputs ++ [item]) =
        orderedTurnItems state binding outputs ++ [item] := by
  rw [orderedTurnItems, insertions_append hapart, shownOutputs_append]
  split
  · rw [List.append_nil]
    exact .inl rfl
  · refine .inr (placeAll_append (fun entry hentry hafter ↦ hitem ?_) fun entry hentry hid ↦
      hitem ?_)
    · rcases h.anchor hentry hafter with hshown | ⟨other, hother, hid, -⟩
      · exact List.mem_append_left _ ((List.filter_sublist.map _).subset hshown)
      · obtain ⟨accepted, hmem, rfl⟩ := mem_insertions.mp hother
        exact List.mem_append_right _ (List.mem_map.mpr ⟨accepted, hmem, hid⟩)
    · obtain ⟨accepted, hmem, rfl⟩ := mem_insertions.mp hentry
      exact List.mem_append_right _ (List.mem_map.mpr ⟨accepted, hmem, hid⟩)

/-- A result without an anchor moves behind its call when the call is put out. -/
theorem calls_of_appended (h : WellAnchored state binding outputs)
    (happended : ∀ item,
      item.id ∉ outputs.map (·.id) ++ (acceptedItems state binding).map (·.item.id) →
        orderedTurnItems state binding (outputs ++ [item]) =
            orderedTurnItems state binding outputs ∨
          orderedTurnItems state binding (outputs ++ [item]) =
            orderedTurnItems state binding outputs ++ [item])
    {entry : Insertion} (hentry : entry ∈ acceptedItems state binding) (hafter : entry.after = none)
    {callId : String} (hresult : entry.item.resultOf = some callId) :
    outputs.any (·.calls callId) := by
  by_contra hmissing
  obtain ⟨id, hid⟩ := Infinite.exists_notMem_finset
    (outputs.map (·.id) ++ (acceptedItems state binding).map (·.item.id)).toFinset
  rw [List.mem_toFinset] at hid
  let call : AgentSessionItem := .functionCall id callId "" "" "" ""
  have hwell : WellAnchored state binding (outputs ++ [call]) := h.append hid
  have hresolved : (resolveAnchor (outputs ++ [call]) entry).after = some call.id := by
    have hnone : outputs.find? (·.calls callId) = none := by
      rw [List.find?_eq_none]
      intro x hx hcalls
      exact hmissing (List.any_eq_true.mpr ⟨x, hx, hcalls⟩)
    have hfound : (outputs ++ [call]).find? (·.calls callId) = some call := by
      rw [List.find?_append, hnone, Option.none_or]
      exact List.find?_cons_of_pos (beq_self_eq_true callId)
    simp only [resolveAnchor, hafter, hresult, Option.bind_some, hfound, Option.map_some]
    rfl
  have hbefore : Before (orderedTurnItems state binding (outputs ++ [call])) call entry.item := by
    refine placeAll_anchored hwell.ordered (mem_insertions.mpr ⟨entry, hentry, rfl⟩) ?_ hresolved
    rw [shownOutputs_append]
    exact List.mem_append_left _ (List.mem_append_right _ (List.mem_singleton.mpr rfl))
  have hnew : call ∉ orderedTurnItems state binding outputs := by
    intro hin
    rcases List.mem_append.mp ((placeAll_perm h.ordered).mem_iff.mp hin) with hshown | haccepted
    · exact hid (List.mem_append_left _ (List.mem_map_of_mem (List.mem_filter.mp hshown).1))
    · obtain ⟨other, hother, heq⟩ := List.mem_map.mp haccepted
      obtain ⟨accepted, hmem, rfl⟩ := mem_insertions.mp hother
      refine hid (List.mem_append_right _ (List.mem_map.mpr ⟨accepted, hmem, ?_⟩))
      exact congrArg AgentSessionItem.id heq
  rcases happended call hid with hsame | hmore
  · rw [hsame] at hbefore
    exact hnew (hbefore.subset List.mem_cons_self)
  · rw [hmore] at hbefore
    exact List.not_mem_nil (hbefore.mem_right hnew)

end

/-! ## Saved transcripts -/

section

variable {state : SessionState} {binding : SessionTurnBinding} {outputs : List AgentSessionItem}

theorem ordered_iff (h : WellAnchored state binding outputs) :
    (∀ entry ∈ insertions state binding outputs, ∀ other ∈ insertions state binding outputs,
        entry.after = other.after → entry.ordinal < other.ordinal →
          Before (orderedTurnItems state binding outputs) entry.item other.item) ↔
      ∀ entry ∈ insertions state binding outputs, ∀ other ∈ insertions state binding outputs,
        entry.after = other.after → entry.ordinal < other.ordinal → ∀ a ∈ entry.after,
          a ∈ (shownOutputs state binding outputs).map (·.id) := by
  have hsorted := insertions_sorted h
  have hplaced := placeAll_ordered_iff h.ordered
  rw [pairwise_iff_ordinal hsorted, pairwise_iff_ordinal hsorted] at hplaced
  constructor
  · intro hordered entry hentry other hother hsame hlt
    refine hplaced.mp (fun a ha b hb hab heq ↦ ?_) entry hentry other hother hlt hsame
    exact hordered a ha b hb heq hab
  · intro hroots entry hentry other hother hsame hlt
    refine hplaced.mpr (fun a ha b hb hab heq ↦ ?_) entry hentry other hother hlt hsame
    exact hroots a ha b hb heq hab

/-- The saved transcript keeps its promises exactly if no two accepted items hang on an accepted
one, and no result waits for its call. -/
theorem transcriptKept_iff (state : SessionState) (binding : SessionTurnBinding)
    (outputs : List AgentSessionItem) (h : WellAnchored state binding outputs) :
    TranscriptKept state binding outputs ↔ AnchorsApart state binding outputs := by
  constructor
  · intro hkept
    refine ⟨(ordered_iff h).mp hkept.ordered, fun entry hentry hafter callId hresult ↦ ?_⟩
    exact calls_of_appended h hkept.appended hentry hafter hresult
  · intro hapart
    refine ⟨?_, sublist_placeAll h.ordered, ?_, (ordered_iff h).mpr hapart.shared,
      fun item hitem ↦ orderedTurnItems_append h hapart hitem⟩
    · -- Placing moves nothing: what is there at the end is what was there and what was inserted.
      exact (placeAll_perm h.ordered).trans
        ((map_insertions (·.item) fun _ ↦ rfl).append_left _)
    · intro entry hentry a ha
      -- An anchor is an item that was shown, or one that is placed in the same pass.
      rcases h.anchor hentry ha with hshown | ⟨other, hother, rfl, -⟩
      · obtain ⟨y, hy, rfl⟩ := List.mem_map.mp hshown
        exact ⟨y, rfl, placeAll_anchored h.ordered hentry (List.mem_append_left _ hy) ha⟩
      · exact ⟨other.item, rfl, placeAll_anchored h.ordered hentry
          (List.mem_append_right _ (List.mem_map_of_mem hother)) ha⟩

end

/-! ## Two results after one message -/

def sampleCall (id : String) : AgentSessionItem :=
  .functionCall id ("call:" ++ id) "look" "" "completed" "turn"

def sampleResult (id : String) (ordinal : ℕ) : SessionCommand :=
  .toolResult "turn" (some "m2") ordinal ⟨"turn", "call:" ++ id, true, some "done", none⟩

/-- The execution called two functions, and then a message steered the Turn. -/
def sampleBinding : SessionTurnBinding :=
  ⟨⟨"turn", none, .inProgress, 0, some 0, none, none⟩,
    [⟨⟨"user", ["look"]⟩, "m1", none, 0⟩, ⟨⟨"user", ["hurry"]⟩, "m2", some "f2", 1⟩],
    none, false, none, none, []⟩

/-- One request answered both calls. -/
def sampleResults : SessionState :=
  ⟨true, none, false, ⟨⟨"model", none, "auto"⟩, .inProgress, [], 0, none, none⟩, [sampleBinding],
    ⟨[("key", ⟨"", [sampleResult "f1" 2, sampleResult "f2" 3], true, none⟩)], by decide⟩, []⟩

def sampleOutputs : List AgentSessionItem := [sampleCall "f1", sampleCall "f2"]

/-- How the answer to a call was accepted. -/
def sampleInsertion (id : String) (index ordinal : ℕ) : Insertion :=
  ⟨.functionCallOutput (functionResultItem "key" index "turn"
    ⟨"turn", "call:" ++ id, true, some "done", none⟩), some "m2", ordinal⟩

example : (orderedTurnItems sampleResults sampleBinding sampleOutputs).map (·.id) =
    ["m1", "f1", "f2", "m2", "fresult_key_1", "fresult_key_0"] := by
  decide

/-- Two results that were accepted after a message are shown in the wrong order. -/
theorem transcript_reversed :
    ¬∀ (state : SessionState) (binding : SessionTurnBinding) (outputs : List AgentSessionItem),
      WellAnchored state binding outputs → TranscriptKept state binding outputs := by
  intro h
  have hwell : WellAnchored sampleResults sampleBinding sampleOutputs :=
    ⟨by decide, by decide, by decide⟩
  have hbefore := (h _ _ _ hwell).ordered (sampleInsertion "f1" 0 2) (by decide)
    (sampleInsertion "f2" 1 3) (by decide) rfl (by decide)
  have hreversed : ¬Before (orderedTurnItems sampleResults sampleBinding sampleOutputs)
      (sampleInsertion "f1" 0 2).item (sampleInsertion "f2" 1 3).item := by
    unfold Before
    decide
  exact hreversed hbefore

/-- With one answer the transcript is kept. -/
theorem transcriptKept_one :
    TranscriptKept { sampleResults with receipts :=
        ⟨[("key", ⟨"", [sampleResult "f1" 2], true, none⟩)], by decide⟩ }
      sampleBinding sampleOutputs :=
  (transcriptKept_iff _ _ _ ⟨by decide, by decide, by decide⟩).mpr
    ⟨by decide, by decide⟩

end RatThings
