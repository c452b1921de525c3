import Mathlib.Data.List.Chain
import Mathlib.Data.List.Induction
import Mathlib.Data.List.Perm.Basic
import RatThings.Runtime.Steps
import RatThings.Runtime.TokenSums

/-!
# What Turns are charged

A Turn is charged in one of two ways. The harness reports the exact usage of each response of the
model, and the cumulative total of a thread. A Turn that received an exact report has the sum of its
responses, each counted once; any other Turn has what the total of its thread grew by while it was
the thread's last Turn.

The ledger beside a run writes down what was reported, and to which Turn. Nothing in the runtime
reads it. The invariant (`Charged`) is that every Turn has been paid for what the ledger says, that
the runtime's baseline of each thread is the last total of the ledger, and that the growth noted for
the Turns of a thread adds up to that total. The last of these is what keeps totals of earlier Turns
from being charged again: such a total moves neither the baseline nor any Turn.

This rests on what the harness is trusted for. A count of a thread comes with its total, which never
falls (otherwise the runtime takes it to start anew, and charges all of it); an API Turn has no
usage when it is bound; and counts are natural numbers whose sums doubles represent
(`Ledger.Exact`), since the runtime adds doubles, and this account rational numbers.
-/

namespace RatThings.Runtime

open Concurrent SessionRuntimeState

/-! ## What is reported -/

/-- The native coordinates of a Turn. -/
def NativeTurnBinding.coordinates (binding : NativeTurnBinding) : String × String :=
  (binding.threadId, binding.nativeTurnId)

/-- The Turn that a notification concerns. -/
def concernedTurn (state : SessionRuntimeState) (event : SessionRuntimeEvent) :
    Option (String × String) :=
  (nonempty (stringOf event.params "threadId")).bind fun threadId ↦
    if state.knows threadId && concernsTurn event then
      (nativeTurnIdOf state event threadId).map (threadId, ·)
    else none

/-- The exact usage of a response, and the Turn that receives it. -/
def reportedResponse (state : SessionRuntimeState) (event : SessionRuntimeEvent) :
    Option ((String × String) × String × TokenUsage) :=
  if event.method = "rawResponse/completed" then do
    let turn ← concernedTurn state event
    let responseId ← stringOf event.params "responseId"
    let usage ← recordOf event.params "usage"
    some (turn, responseId, publicUsage usage)
  else none

/-- The last Turn of its thread, as a Turn is that is not known yet. -/
def isLatest (state : SessionRuntimeState) (turn : String × String) : Bool :=
  let previous := state.bindingOf turn.1 turn.2
  previous.isNone || (state.lastOf turn.1).map Prod.fst = previous.map Prod.fst

def totalTokensOf (event : SessionRuntimeEvent) : Option JsonValue :=
  (recordOf event.params "tokenUsage").bind (recordOf · "total")

/-- The cumulative total of a thread, and the latest Turn of the thread. -/
def reportedTotal (state : SessionRuntimeState) (event : SessionRuntimeEvent) :
    Option ((String × String) × TokenUsage) :=
  if event.method = "thread/tokenUsage/updated" then do
    let turn ← concernedTurn state event
    let total ← totalTokensOf event
    if isLatest state turn then some (turn, publicUsage total) else none
  else none

/-- What was reported in a run. -/
structure Ledger where
  /-- The responses that a Turn received, repeated ones included. -/
  responses : String × String → List (String × TokenUsage)
  /-- What the totals of its thread grew by while a Turn was the last one. -/
  increments : String × String → List TokenUsage
  /-- The totals of a thread. -/
  totals : String → List TokenUsage

def Ledger.empty : Ledger := ⟨fun _ ↦ [], fun _ ↦ [], fun _ ↦ []⟩

def Ledger.lastTotal (ledger : Ledger) (threadId : String) : TokenUsage :=
  (ledger.totals threadId).getLast?.getD 0

def Ledger.receive (ledger : Ledger) (turn : String × String) (response : String × TokenUsage) :
    Ledger :=
  { ledger with responses :=
      Function.update ledger.responses turn (ledger.responses turn ++ [response]) }

def Ledger.grow (ledger : Ledger) (turn : String × String) (total : TokenUsage) : Ledger :=
  { ledger with
    increments := Function.update ledger.increments turn
      (ledger.increments turn ++ [total.since (ledger.lastTotal turn.1)])
    totals := Function.update ledger.totals turn.1 (ledger.totals turn.1 ++ [total]) }

/-- A notification about `event`, when it meets the state. -/
def Ledger.note (ledger : Ledger) (state : SessionRuntimeState) (event : SessionRuntimeEvent) :
    Ledger :=
  match reportedResponse state event, reportedTotal state event with
  | some (turn, response), _ => ledger.receive turn response
  | none, some (turn, total) => ledger.grow turn total
  | none, none => ledger

/-- The runtime with its ledger. A native event is noted as it is when the metadata of coordination
was selected. -/
def audit (parse : String → Option JsonValue) (audited : SessionRuntimeState × Ledger)
    (action : RuntimeAction) : SessionRuntimeState × Ledger :=
  (action.apply parse audited.1, match action with
    | .native event =>
      let (state, event) := planNativeCoordination parse audited.1 event
      audited.2.note (announceReceivers state event) event
    | _ => audited.2)

def runAudited (parse : String → Option JsonValue) (actions : List RuntimeAction)
    (audited : SessionRuntimeState × Ledger) : SessionRuntimeState × Ledger :=
  actions.foldl (audit parse) audited

/-- The first report of each response. -/
def firstReports (responses : List (String × TokenUsage)) : List (String × TokenUsage) :=
  responses.foldl (fun first response ↦
    if first.any (·.1 = response.1) then first else first ++ [response]) []

/-- What the reports to a Turn add up to. Exact ones replace the growth of the thread's total. -/
def Ledger.usage (ledger : Ledger) (turn : String × String) : Option TokenUsage :=
  if ledger.responses turn ≠ [] then some ((firstReports (ledger.responses turn)).map (·.2)).sum
  else if ledger.increments turn = [] then none
  else some (ledger.increments turn).sum

/-! ## Bills -/

/-- What a Turn has been charged, as the runtime keeps it. -/
structure Bill where
  turn : String × String
  usage : Option TokenUsage
  responseIds : Option (List String)

def NativeTurnBinding.bill (binding : NativeTurnBinding) : Bill :=
  ⟨binding.coordinates, binding.turn.usage, binding.usageResponseIds⟩

def SessionRuntimeState.bills (state : SessionRuntimeState) : List Bill := state.turns.map (·.bill)

/-- The bill says what was reported. -/
def Ledger.Pays (ledger : Ledger) (bill : Bill) : Prop :=
  bill.usage = ledger.usage bill.turn ∧
    bill.responseIds = if ledger.responses bill.turn = [] then none
      else some ((firstReports (ledger.responses bill.turn)).map (·.1))

/-- All counts that were reported say how many tokens there are in total. -/
structure Ledger.Whole (ledger : Ledger) : Prop where
  responses : ∀ turn, ∀ response ∈ ledger.responses turn, response.2.Whole
  increments : ∀ turn, ∀ usage ∈ ledger.increments turn, usage.Whole
  totals : ∀ threadId, ∀ usage ∈ ledger.totals threadId, usage.Whole

/-- Doubles represent what was reported: the counts are natural numbers, and what they add up to is
at most `2 ^ 53`. -/
structure Ledger.Exact (ledger : Ledger) : Prop where
  responses : ∀ turn, (∀ response ∈ ledger.responses turn, response.2.Natural) ∧
    ((firstReports (ledger.responses turn)).map Prod.snd).sum.Exact
  totals : ∀ threadId, ∀ total ∈ ledger.totals threadId, total.Exact

/-- The bills say what was reported, and nothing is lost between the Turns of a thread. -/
structure Charged (bills : List Bill) (threadUsage : OrderedMap String TokenUsage)
    (ledger : Ledger) : Prop where
  apart : (bills.map (·.turn)).Nodup
  paid : ∀ bill ∈ bills, ledger.Pays bill
  unknown : ∀ turn ∉ bills.map (·.turn), ledger.responses turn = [] ∧ ledger.increments turn = []
  baseline : ∀ threadId, threadUsage.get? threadId = (ledger.totals threadId).getLast?
  whole : ledger.Whole
  telescoped : ∀ threadId, (((bills.map (·.turn)).filter (·.1 = threadId)).map fun turn ↦
    (ledger.increments turn).sum).sum = ledger.lastTotal threadId

section

variable {bills bills' : List Bill} {threadUsage threadUsage' : OrderedMap String TokenUsage}
  {ledger ledger' : Ledger} {bill : Bill}

theorem Charged.perm (h : Charged bills threadUsage ledger) (hperm : bills'.Perm bills) :
    Charged bills' threadUsage ledger := by
  have hturns := hperm.map (·.turn)
  refine ⟨hturns.nodup_iff.2 h.apart, fun bill hbill ↦ h.paid bill (hperm.mem_iff.1 hbill),
    fun turn hturn ↦ h.unknown turn fun hmem ↦ hturn (hturns.mem_iff.2 hmem), h.baseline, h.whole,
    fun threadId ↦ ?_⟩
  rw [← h.telescoped threadId]
  exact ((hturns.filter _).map _).sum_eq

/-- A sum over some elements, with one of them taken out. -/
theorem sum_filter_split {κ M : Type} [DecidableEq κ] [AddCommMonoid M] {l : List κ} (hl : l.Nodup)
    (k : κ) {f : κ → M} (hf : k ∉ l → f k = 0) (p : κ → Bool) :
    ((l.filter p).map f).sum =
      (if p k then f k else 0) + (((l.filter (· ≠ k)).filter p).map f).sum := by
  by_cases hk : k ∈ l
  · have hperm : (l.filter p).Perm ((k :: l.filter (· ≠ k)).filter p) := by
      have herase : l.erase k = l.filter (· ≠ k) := by
        rw [hl.erase_eq_filter]
        exact List.filter_congr fun x _ ↦ by rw [bne, beq_eq_decide, ← decide_not]
      rw [← herase]
      exact (List.perm_cons_erase hk).filter p
    rw [(hperm.map f).sum_eq, List.filter_cons]
    split
    · rw [List.map_cons, List.sum_cons]
    · rw [zero_add]
  · have hsame : l.filter (· ≠ k) = l :=
      List.filter_eq_self.2 fun x hx ↦ decide_eq_true fun heq ↦ hk (heq ▸ hx)
    rw [hf hk, ite_self, zero_add, hsame]

/-- **Charging one Turn.** The other Turns keep their bills, and the last total of its thread grows
by what the Turn is charged for it. -/
theorem Charged.put (h : Charged bills threadUsage ledger) (hpays : ledger'.Pays bill)
    (hothers : ∀ turn ≠ bill.turn, ledger'.responses turn = ledger.responses turn ∧
      ledger'.increments turn = ledger.increments turn)
    (hbaseline : ∀ threadId, threadUsage'.get? threadId = (ledger'.totals threadId).getLast?)
    (hwhole : ledger'.Whole) (growth : TokenUsage)
    (hgrowth : (ledger'.increments bill.turn).sum = (ledger.increments bill.turn).sum + growth)
    (hlast : ∀ threadId, ledger'.lastTotal threadId =
      if threadId = bill.turn.1 then ledger.lastTotal threadId + growth
      else ledger.lastTotal threadId) :
    Charged (bill :: bills.filter (·.turn ≠ bill.turn)) threadUsage' ledger' := by
  have hturns : (bills.filter (·.turn ≠ bill.turn)).map (·.turn) =
      (bills.map (·.turn)).filter (· ≠ bill.turn) := by
    rw [List.filter_map]
    rfl
  have hnew : bill.turn ∉ (bills.map (·.turn)).filter (· ≠ bill.turn) := by
    intro hmem
    exact of_decide_eq_true (List.mem_filter.1 hmem).2 rfl
  refine ⟨?_, ?_, ?_, hbaseline, hwhole, ?_⟩
  · rw [List.map_cons, hturns]
    exact List.nodup_cons.2 ⟨hnew, h.apart.filter _⟩
  · rw [List.forall_mem_cons]
    refine ⟨hpays, fun other hother ↦ ?_⟩
    obtain ⟨hmem, hne⟩ := List.mem_filter.1 hother
    obtain ⟨hresponses, hincrements⟩ := hothers other.turn (of_decide_eq_true hne)
    have hpaid := h.paid other hmem
    rw [Ledger.Pays, Ledger.usage] at hpaid ⊢
    rwa [hresponses, hincrements]
  · intro turn hturn
    rw [List.map_cons, hturns, List.mem_cons, not_or] at hturn
    obtain ⟨hresponses, hincrements⟩ := hothers turn hturn.1
    rw [hresponses, hincrements]
    exact h.unknown turn fun hmem ↦ hturn.2 (List.mem_filter.2 ⟨hmem, decide_eq_true hturn.1⟩)
  · intro threadId
    have hrest : (((bills.map (·.turn)).filter (· ≠ bill.turn)).filter (·.1 = threadId)).map
        (fun turn ↦ (ledger'.increments turn).sum) =
          (((bills.map (·.turn)).filter (· ≠ bill.turn)).filter (·.1 = threadId)).map
            fun turn ↦ (ledger.increments turn).sum := by
      refine List.map_congr_left fun turn hturn ↦ ?_
      have hne := (List.mem_filter.1 (List.mem_filter.1 hturn).1).2
      rw [(hothers turn (of_decide_eq_true hne)).2]
    have hold := h.telescoped threadId
    rw [sum_filter_split h.apart bill.turn (fun hnot ↦ by rw [(h.unknown _ hnot).2]; rfl)] at hold
    rw [List.map_cons, hturns, List.filter_cons, hlast]
    by_cases hthread : bill.turn.1 = threadId
    · rw [if_pos (decide_eq_true hthread)] at hold ⊢
      rw [List.map_cons, List.sum_cons, hrest, hgrowth, if_pos hthread.symm, ← hold, add_right_comm]
    · rw [if_neg (by simpa using hthread), zero_add] at hold
      rw [if_neg (by simpa using hthread), hrest, hold, if_neg (Ne.symm hthread)]

/-- A Turn whose bill stays as it was. -/
theorem Charged.keep (h : Charged bills threadUsage ledger) (hpays : ledger.Pays bill) :
    Charged (bill :: bills.filter (·.turn ≠ bill.turn)) threadUsage ledger := by
  refine h.put hpays (fun _ _ ↦ ⟨rfl, rfl⟩) h.baseline h.whole 0 (add_zero _).symm fun threadId ↦ ?_
  rw [add_zero, ite_self]

end

/-! ## The bill of one Turn -/

section

variable {state : SessionRuntimeState} {event : SessionRuntimeEvent} {ledger : Ledger}
  {threadId nativeTurnId : String}

theorem bills_putTurn {binding : NativeTurnBinding}
    (hapart : (state.bills.map (·.turn)).Nodup)
    (hbinding : binding.coordinates = (threadId, nativeTurnId)) :
    ((putTurn state threadId nativeTurnId binding).map (·.bill)).Perm
      (binding.bill :: state.bills.filter (·.turn ≠ binding.bill.turn)) := by
  have hturn : binding.bill.turn = (threadId, nativeTurnId) := hbinding
  unfold putTurn
  rcases hfound : state.bindingOf threadId nativeTurnId with _ | ⟨index, previous⟩
  · have hkept : state.bills.filter (·.turn ≠ binding.bill.turn) = state.bills := by
      refine List.filter_eq_self.2 fun bill hbill ↦ decide_eq_true fun hsame ↦ ?_
      obtain ⟨other, hother, rfl⟩ := List.mem_map.1 hbill
      have hcoordinates : other.coordinates = (threadId, nativeTurnId) := hsame.trans hturn
      exact bindingOf_eq_none hfound other hother (Prod.mk.inj hcoordinates)
    rw [hkept, List.map_append]
    exact List.perm_append_comm
  · obtain ⟨hget, hthread, hnative⟩ := bindingOf_eq_some hfound
    obtain ⟨hlt, hindex⟩ := List.getElem?_eq_some_iff.1 hget
    have hprevious : previous.bill.turn = binding.bill.turn := by
      rw [hturn]
      exact Prod.ext hthread hnative
    have hsplit : state.bills.Perm
        (previous.bill :: (state.turns.eraseIdx index).map (·.bill)) := by
      have hperm := (List.getElem_cons_eraseIdx_perm hlt).map (·.bill)
      rw [hindex] at hperm
      exact hperm.symm
    have hrest : (state.bills.filter (·.turn ≠ binding.bill.turn)).Perm
        ((state.turns.eraseIdx index).map (·.bill)) := by
      have hnodup := (hsplit.map (·.turn)).nodup_iff.1 hapart
      rw [List.map_cons, List.nodup_cons] at hnodup
      refine (hsplit.filter _).trans ?_
      rw [List.filter_cons_of_neg (by simp [hprevious])]
      refine List.Perm.of_eq (List.filter_eq_self.2 fun bill hbill ↦ decide_eq_true fun hsame ↦ ?_)
      exact hnodup.1 (List.mem_map.2 ⟨bill, hbill, hsame.trans hprevious.symm⟩)
    refine ((List.set_perm_cons_eraseIdx hlt binding).map (·.bill)).trans ?_
    rw [List.map_cons]
    exact hrest.symm.cons _

/-- A Turn that is known is the one that it would replace. -/
theorem bills_perm_self {bills : List Bill} {bill : Bill} (hapart : (bills.map (·.turn)).Nodup)
    (hbill : bill ∈ bills) : bills.Perm (bill :: bills.filter (·.turn ≠ bill.turn)) := by
  induction bills with
  | nil => exact absurd hbill List.not_mem_nil
  | cons other bills ih =>
    rw [List.map_cons, List.nodup_cons] at hapart
    rcases List.mem_cons.1 hbill with rfl | hbill
    · rw [List.filter_cons_of_neg (by simp)]
      refine List.Perm.of_eq (congrArg _ (List.filter_eq_self.2 fun other hother ↦ ?_).symm)
      exact decide_eq_true fun hsame ↦ hapart.1 (List.mem_map.2 ⟨other, hother, hsame⟩)
    · have hne : other.turn ≠ bill.turn :=
        fun hsame ↦ hapart.1 (List.mem_map.2 ⟨bill, hbill, hsame.symm⟩)
      rw [List.filter_cons_of_pos (by simpa using hne)]
      exact ((ih hapart.2 hbill).cons other).trans (List.Perm.swap _ _ _)

/-- The bill of the Turn that a notification changes, before it does. -/
theorem Charged.pays_turnOf (h : Charged state.bills state.threadUsage ledger) (now : ℚ) :
    ledger.Pays (turnOf state threadId nativeTurnId now).bill := by
  unfold turnOf
  rcases hfound : state.bindingOf threadId nativeTurnId with _ | ⟨index, previous⟩
  · have hnew : (threadId, nativeTurnId) ∉ state.bills.map (·.turn) := by
      intro hmem
      obtain ⟨bill, hbill, hturn⟩ := List.mem_map.1 hmem
      obtain ⟨other, hother, rfl⟩ := List.mem_map.1 hbill
      exact bindingOf_eq_none hfound other hother (Prod.mk.inj hturn)
    obtain ⟨hresponses, hincrements⟩ := h.unknown _ hnew
    constructor
    · change none = ledger.usage (threadId, nativeTurnId)
      rw [Ledger.usage, hresponses, hincrements]
      rfl
    · change none = if ledger.responses (threadId, nativeTurnId) = [] then none else _
      rw [hresponses]
      rfl
  · exact h.paid _ (List.mem_map_of_mem (List.mem_of_getElem? (bindingOf_eq_some hfound).1))

/-- The items and the requested functions of a Turn are not charged. -/
theorem bill_finished {advance : Advance} :
    (finished state event threadId nativeTurnId advance).binding.bill = advance.binding.bill ∧
      (finished state event threadId nativeTurnId advance).threadUsage = advance.threadUsage := by
  rw [finished]
  rcases @requestFunction_cases event
      { advance with
        binding := projectItems state event threadId nativeTurnId advance.binding } with
    hsame | ⟨-, -, -, husage, hbinding, -⟩
  · rw [hsame]
    exact ⟨rfl, rfl⟩
  · rw [husage, hbinding]
    exact ⟨rfl, rfl⟩

/-- What a notification about a Turn does, with the check for replayed totals by name. -/
theorem reduceTurn_latest : reduceTurn state event threadId nativeTurnId =
    if event.method = "thread/tokenUsage/updated" ∧
      isLatest state (threadId, nativeTurnId) = false then
      state
    else match advanceTurn event threadId (begun state event threadId nativeTurnId) with
      | none => state
      | some advance => { state with
          turns := putTurn state threadId nativeTurnId
            (finished state event threadId nativeTurnId advance).binding
          requiredActions := (finished state event threadId nativeTurnId advance).requiredActions
          threadUsage := (finished state event threadId nativeTurnId advance).threadUsage } := by
  have hstale : (event.method = "thread/tokenUsage/updated" &&
      (state.bindingOf threadId nativeTurnId).isSome &&
      decide ((state.lastOf threadId).map Prod.fst ≠
        (state.bindingOf threadId nativeTurnId).map Prod.fst)) = true ↔
      event.method = "thread/tokenUsage/updated" ∧
        isLatest state (threadId, nativeTurnId) = false := by
    rw [isLatest, Bool.and_assoc, Bool.and_eq_true, decide_eq_true_eq, Bool.or_eq_false_iff,
      Bool.and_eq_true, decide_eq_true_eq, decide_eq_false_iff_not, ← Option.not_isSome,
      Bool.not_eq_false']
  unfold reduceTurn
  dsimp only
  by_cases hskip : event.method = "thread/tokenUsage/updated" ∧
      isLatest state (threadId, nativeTurnId) = false
  · rw [if_pos hskip, if_pos (hstale.2 hskip)]
  · rw [if_neg hskip, if_neg (mt hstale.1 hskip)]
    change (match advanceTurn event threadId (begun state event threadId nativeTurnId) with
      | none => state
      | some advance => _) = _
    split
    · rfl
    · unfold putTurn finished
      rcases state.bindingOf threadId nativeTurnId with _ | ⟨index, binding⟩ <;> rfl

/-- The state after the Turn was charged. -/
theorem charged_advanced {advance : Advance} {ledger' : Ledger}
    (hapart : (state.bills.map (·.turn)).Nodup)
    (hfresh : ¬ (event.method = "thread/tokenUsage/updated" ∧
      isLatest state (threadId, nativeTurnId) = false))
    (hadvance : advanceTurn event threadId (begun state event threadId nativeTurnId) = some advance)
    (hturn : advance.binding.bill.turn = (threadId, nativeTurnId))
    (hcharged : Charged (advance.binding.bill ::
      state.bills.filter (·.turn ≠ advance.binding.bill.turn))
      advance.threadUsage ledger') :
    Charged (reduceTurn state event threadId nativeTurnId).bills
      (reduceTurn state event threadId nativeTurnId).threadUsage ledger' := by
  obtain ⟨hbill, husage⟩ := @bill_finished state event threadId nativeTurnId advance
  have hcoordinates : (finished state event threadId nativeTurnId advance).binding.coordinates =
      (threadId, nativeTurnId) := (congrArg Bill.turn hbill).trans hturn
  rw [reduceTurn_latest, if_neg hfresh, hadvance]
  change Charged ((putTurn state threadId nativeTurnId _).map (·.bill))
    (finished state event threadId nativeTurnId advance).threadUsage ledger'
  rw [husage]
  refine hcharged.perm ?_
  have hperm := bills_putTurn hapart hcoordinates
  rwa [hbill] at hperm

/-! ## Responses -/

theorem firstReports_concat (responses : List (String × TokenUsage))
    (response : String × TokenUsage) : firstReports (responses ++ [response]) =
      if (firstReports responses).any (·.1 = response.1) then firstReports responses
      else firstReports responses ++ [response] := by
  rw [firstReports, List.foldl_concat]
  rfl

theorem firstReports_subset {responses : List (String × TokenUsage)} :
    ∀ response ∈ firstReports responses, response ∈ responses := by
  induction responses using List.reverseRecOn with
  | nil => exact fun _ hmem ↦ absurd hmem List.not_mem_nil
  | append_singleton responses last ih =>
    intro response hmem
    rw [firstReports_concat] at hmem
    split at hmem
    · exact List.mem_append_left _ (ih _ hmem)
    · rcases List.mem_append.1 hmem with hmem | hmem
      · exact List.mem_append_left _ (ih _ hmem)
      · exact List.mem_append_right _ hmem

theorem Ledger.Whole.receive (h : ledger.Whole) {turn : String × String}
    {response : String × TokenUsage} (hresponse : response.2.Whole) :
    (ledger.receive turn response).Whole := by
  refine ⟨fun turn' received hreceived ↦ ?_, h.increments, h.totals⟩
  rw [Ledger.receive] at hreceived
  dsimp only at hreceived
  rw [Function.update_apply] at hreceived
  split at hreceived
  · rcases List.mem_append.1 hreceived with hmem | hmem
    · exact h.responses _ _ hmem
    · rw [List.mem_singleton.1 hmem]
      exact hresponse
  · exact h.responses _ _ hreceived

/-- A report to one Turn leaves the bills of the others alone. -/
theorem Charged.receive {bills : List Bill} {threadUsage : OrderedMap String TokenUsage}
    {bill : Bill}
    {response : String × TokenUsage} (h : Charged bills threadUsage ledger)
    (hresponse : response.2.Whole) (hpays : (ledger.receive bill.turn response).Pays bill) :
    Charged (bill :: bills.filter (·.turn ≠ bill.turn)) threadUsage
      (ledger.receive bill.turn response) := by
  refine h.put hpays (fun turn hne ↦ ⟨Function.update_of_ne hne _ _, rfl⟩) h.baseline
    (h.whole.receive hresponse) 0 (add_zero _).symm fun threadId ↦ ?_
  rw [add_zero, ite_self]
  rfl

theorem Ledger.responses_receive (turn : String × String) (response : String × TokenUsage) :
    (ledger.receive turn response).responses turn = ledger.responses turn ++ [response] :=
  Function.update_self _ _ _

section

variable {bill : Bill} {response : String × TokenUsage}

/-- A bill holds the ids of the responses that were reported. -/
theorem Ledger.Pays.contains (h : ledger.Pays bill) (responseId : String) :
    bill.responseIds.any (·.contains responseId) =
      (firstReports (ledger.responses bill.turn)).any (·.1 = responseId) := by
  rw [h.2]
  split
  · next hnone =>
    rw [hnone]
    rfl
  · rw [Option.any_some, List.contains_eq_any_beq, List.any_map]
    congr 1
    funext response
    rw [Function.comp_apply, beq_eq_decide]
    exact decide_eq_decide.2 eq_comm

/-- A response that is reported again is on the bill already. -/
theorem Ledger.Pays.receive_again (h : ledger.Pays bill)
    (hagain : (firstReports (ledger.responses bill.turn)).any (·.1 = response.1) = true) :
    (ledger.receive bill.turn response).Pays bill := by
  have hsome : ledger.responses bill.turn ≠ [] := by
    intro hnone
    rw [hnone] at hagain
    exact Bool.false_ne_true hagain
  have hnonempty : ledger.responses bill.turn ++ [response] ≠ [] := by simp
  obtain ⟨hpaid, hids⟩ := h
  rw [Ledger.usage, if_pos hsome] at hpaid
  rw [if_neg hsome] at hids
  rw [Ledger.Pays, Ledger.usage, responses_receive, if_pos hnonempty, if_neg hnonempty,
    firstReports_concat, if_pos hagain]
  exact ⟨hpaid, hids⟩

/-- The first response replaces what the Turn was charged for the totals of its thread, and the
next ones are added to it. -/
theorem Ledger.Pays.receive_first (h : ledger.Pays bill)
    (hfirst : ¬ (firstReports (ledger.responses bill.turn)).any (·.1 = response.1) = true) :
    (ledger.receive bill.turn response).Pays ⟨bill.turn,
      totalUsage [if bill.responseIds.isSome then bill.usage else none, some response.2],
      some (bill.responseIds.getD [] ++ [response.1])⟩ := by
  have hnonempty : ledger.responses bill.turn ++ [response] ≠ [] := by simp
  obtain ⟨hpaid, hids⟩ := h
  rw [Ledger.Pays, Ledger.usage]
  dsimp only
  rw [responses_receive, if_pos hnonempty, if_neg hnonempty, firstReports_concat, if_neg hfirst,
    List.map_append, List.map_append, List.sum_append, totalUsage_pair]
  by_cases hnone : ledger.responses bill.turn = []
  · rw [hids, if_pos hnone, hnone]
    refine ⟨congrArg some ?_, rfl⟩
    rw [List.map_singleton, List.sum_singleton]
    rfl
  · rw [Ledger.usage, if_pos hnone] at hpaid
    rw [hids, if_neg hnone, hpaid]
    refine ⟨congrArg some ?_, rfl⟩
    rw [List.map_singleton, List.sum_singleton]
    rfl

end

theorem turn_bill_begun : (begun state event threadId nativeTurnId).binding.bill.turn =
    (threadId, nativeTurnId) :=
  Prod.ext (turnOf_threadId event.observedAt).1 (turnOf_threadId event.observedAt).2

/-- A Turn that was charged for a response is one of the state's. -/
theorem mem_bills_of_responseIds
    (hids : (begun state event threadId nativeTurnId).binding.bill.responseIds ≠ none) :
    (begun state event threadId nativeTurnId).binding.bill ∈ state.bills := by
  change (turnOf state threadId nativeTurnId event.observedAt).bill ∈ state.bills
  change (turnOf state threadId nativeTurnId event.observedAt).usageResponseIds ≠ none at hids
  unfold turnOf at hids ⊢
  rcases hfound : state.bindingOf threadId nativeTurnId with _ | ⟨index, previous⟩
  · rw [hfound] at hids
    exact absurd rfl hids
  · exact List.mem_map_of_mem (List.mem_of_getElem? (bindingOf_eq_some hfound).1)

/-- A response that the Turn has received before is not charged again, and another one is. -/
theorem charged_response {responseId : String} {usage : JsonValue}
    (h : Charged state.bills state.threadUsage ledger)
    (hmethod : event.method = "rawResponse/completed")
    (hresponse : stringOf event.params "responseId" = some responseId)
    (husage : recordOf event.params "usage" = some usage) :
    Charged (reduceTurn state event threadId nativeTurnId).bills
      (reduceTurn state event threadId nativeTurnId).threadUsage
      (ledger.receive (threadId, nativeTurnId) (responseId, publicUsage usage)) := by
  have hfresh : ¬ (event.method = "thread/tokenUsage/updated" ∧
      isLatest state (threadId, nativeTurnId) = false) := by
    rw [hmethod]
    exact fun hskip ↦ absurd hskip.1 (by decide)
  set before := (begun state event threadId nativeTurnId).binding with hbefore
  have hturn : before.bill.turn = (threadId, nativeTurnId) := turn_bill_begun
  have hpays : ledger.Pays before.bill := h.pays_turnOf event.observedAt
  have hwhole : (responseId, publicUsage usage).2.Whole := TokenUsage.whole_publicUsage usage
  have hadvance : advanceTurn event threadId (begun state event threadId nativeTurnId) =
      chargeResponse event (begun state event threadId nativeTurnId) := by
    simp [advanceTurn, hmethod]
  have hcontains : before.usageResponseIds.any (·.contains responseId) =
      (firstReports (ledger.responses before.bill.turn)).any (·.1 = responseId) :=
    hpays.contains responseId
  by_cases hagain : before.usageResponseIds.any (·.contains responseId) = true
  · -- A response that was charged already is not charged again.
    have hstays : reduceTurn state event threadId nativeTurnId = state := by
      rw [reduceTurn_latest, if_neg hfresh, hadvance, chargeResponse, hresponse, husage]
      dsimp only
      rw [if_pos hagain]
    have hknown : before.bill ∈ state.bills := by
      refine mem_bills_of_responseIds fun hnone ↦ ?_
      change before.usageResponseIds = none at hnone
      rw [hnone] at hagain
      exact Bool.false_ne_true hagain
    rw [hstays, ← hturn]
    exact (h.receive hwhole (hpays.receive_again (hcontains.symm.trans hagain))).perm
      (bills_perm_self h.apart hknown)
  · set charged := totalUsage [if before.usageResponseIds.isSome then before.turn.usage else none,
      some (publicUsage usage)] with hcharged
    have hcharges : advanceTurn event threadId (begun state event threadId nativeTurnId) =
        some { begun state event threadId nativeTurnId with
          binding := { before with
            usageResponseIds := some (before.usageResponseIds.getD [] ++ [responseId])
            turn := { before.turn with usage := charged } } } := by
      rw [hadvance, chargeResponse, hresponse, husage]
      dsimp only
      rw [if_neg (by rw [← hbefore]; exact hagain)]
    refine charged_advanced h.apart hfresh hcharges hturn ?_
    have hcharge := h.receive hwhole
      (hpays.receive_first (hcontains ▸ hagain))
    dsimp only at hcharge
    rw [hturn] at hcharge
    change Charged (⟨before.bill.turn, _, _⟩ ::
      state.bills.filter (·.turn ≠ before.bill.turn)) _ _
    rw [hturn]
    exact hcharge

/-! ## Totals -/

theorem Ledger.lastTotal_grow (turn : String × String) (total : TokenUsage) (thread : String) :
    (ledger.grow turn total).lastTotal thread =
      if thread = turn.1 then total else ledger.lastTotal thread := by
  rw [lastTotal, grow]
  dsimp only
  rw [Function.update_apply]
  split
  · rw [List.getLast?_concat]
    rfl
  · rfl

theorem Charged.whole_lastTotal {bills : List Bill} {threadUsage : OrderedMap String TokenUsage}
    (h : Charged bills threadUsage ledger) (thread : String) : (ledger.lastTotal thread).Whole := by
  rw [Ledger.lastTotal]
  rcases hlast : (ledger.totals thread).getLast? with _ | last
  · exact TokenUsage.whole_zero
  · exact h.whole.totals thread last (List.mem_of_getLast? hlast)

/-- The growth of a total is charged to the last Turn of the thread. -/
theorem Charged.grow {bills : List Bill} {threadUsage threadUsage' : OrderedMap String TokenUsage}
    {bill : Bill} {total : TokenUsage} (h : Charged bills threadUsage ledger) (htotal : total.Whole)
    (husage : threadUsage' = threadUsage.set bill.turn.1 total)
    (hpays : (ledger.grow bill.turn total).Pays bill) :
    Charged (bill :: bills.filter (·.turn ≠ bill.turn)) threadUsage'
      (ledger.grow bill.turn total) := by
  refine h.put hpays (fun turn hne ↦ ⟨rfl, Function.update_of_ne hne _ _⟩) (fun thread ↦ ?_) ?_
    (total.since (ledger.lastTotal bill.turn.1)) ?_ fun thread ↦ ?_
  · rw [husage, Ledger.grow]
    dsimp only
    rw [Function.update_apply]
    split
    · next hthread => rw [hthread, OrderedMap.get?_set_self, List.getLast?_concat]
    · next hthread => rw [OrderedMap.get?_set_of_ne _ hthread, h.baseline]
  · refine ⟨h.whole.responses, fun turn usage hincrement ↦ ?_, fun thread usage hmem ↦ ?_⟩
    · rw [Ledger.grow] at hincrement
      dsimp only at hincrement
      rw [Function.update_apply] at hincrement
      split at hincrement
      · rcases List.mem_append.1 hincrement with hincrement | hincrement
        · exact h.whole.increments _ _ hincrement
        · rw [List.mem_singleton.1 hincrement]
          exact htotal.since (h.whole_lastTotal _)
      · exact h.whole.increments _ _ hincrement
    · rw [Ledger.grow] at hmem
      dsimp only at hmem
      rw [Function.update_apply] at hmem
      split at hmem
      · rcases List.mem_append.1 hmem with hmem | hmem
        · exact h.whole.totals _ _ hmem
        · rw [List.mem_singleton.1 hmem]
          exact htotal
      · exact h.whole.totals _ _ hmem
  · rw [Ledger.grow]
    dsimp only
    rw [Function.update_self, List.sum_append, List.sum_singleton]
  · rw [Ledger.lastTotal_grow]
    split
    · next hthread => rw [hthread, TokenUsage.add_since]
    · rfl

/-- What the total of its thread grew by is charged to a Turn that received no response. -/
theorem Ledger.Pays.grow {bill : Bill} (h : ledger.Pays bill) (total : TokenUsage) :
    (ledger.grow bill.turn total).Pays (if bill.responseIds.isSome then bill
      else ⟨bill.turn, totalUsage [bill.usage, some (total.since (ledger.lastTotal bill.turn.1))],
        bill.responseIds⟩) := by
  have hincrements : (ledger.grow bill.turn total).increments bill.turn =
      ledger.increments bill.turn ++ [total.since (ledger.lastTotal bill.turn.1)] :=
    Function.update_self _ _ _
  obtain ⟨hpaid, hids⟩ := h
  by_cases hnone : ledger.responses bill.turn = []
  · rw [if_pos hnone] at hids
    rw [if_neg (by simp [hids]), Ledger.Pays, Ledger.usage]
    dsimp only
    change _ = (if ledger.responses bill.turn ≠ [] then _ else _) ∧
      _ = if ledger.responses bill.turn = [] then _ else _
    rw [hincrements, if_pos hnone, if_neg (not_not_intro hnone), if_neg (by simp)]
    refine ⟨?_, hids⟩
    rw [totalUsage_pair, hpaid, Ledger.usage, if_neg (not_not_intro hnone)]
    split
    · next hempty =>
      rw [hempty, List.nil_append, List.sum_singleton]
      exact congrArg some (zero_add _)
    · rw [List.sum_append, List.sum_singleton]
      rfl
  · rw [if_neg hnone] at hids
    rw [if_pos (by simp [hids])]
    rw [Ledger.usage, if_pos hnone] at hpaid
    rw [Ledger.Pays, Ledger.usage]
    change _ = (if ledger.responses bill.turn ≠ [] then _ else _) ∧
      _ = if ledger.responses bill.turn = [] then _ else _
    rw [if_neg hnone, if_pos hnone]
    exact ⟨hpaid, hids⟩

/-- A total that is not smaller than the one before it. -/
theorem charged_total {total : JsonValue} (h : Charged state.bills state.threadUsage ledger)
    (hmethod : event.method = "thread/tokenUsage/updated")
    (hlatest : isLatest state (threadId, nativeTurnId) = true)
    (htotal : totalTokensOf event = some total)
    (hgrows : ∀ last ∈ (ledger.totals threadId).getLast?, last.Grows (publicUsage total)) :
    Charged (reduceTurn state event threadId nativeTurnId).bills
      (reduceTurn state event threadId nativeTurnId).threadUsage
      (ledger.grow (threadId, nativeTurnId) (publicUsage total)) := by
  have hfresh : ¬ (event.method = "thread/tokenUsage/updated" ∧
      isLatest state (threadId, nativeTurnId) = false) := by
    rw [hlatest]
    exact fun hskip ↦ absurd hskip.2 (by decide)
  set before := (begun state event threadId nativeTurnId).binding with hbefore
  have hturn : before.bill.turn = (threadId, nativeTurnId) := turn_bill_begun
  have hpays : ledger.Pays before.bill := h.pays_turnOf event.observedAt
  have hwhole : (publicUsage total).Whole := TokenUsage.whole_publicUsage total
  -- The ledger's last total is the baseline, so the growth that is charged is that of the ledger.
  have hdifference : usageDifference (publicUsage total) (state.threadUsage.get? threadId) =
      (publicUsage total).since (ledger.lastTotal threadId) := by
    rw [h.baseline]
    exact usageDifference_eq hwhole fun last hlast ↦
      ⟨h.whole.totals threadId last (List.mem_of_getLast? hlast), hgrows last hlast⟩
  set charged := totalUsage [before.turn.usage,
    some ((publicUsage total).since (ledger.lastTotal threadId))] with hcharged
  set after : NativeTurnBinding := if before.usageResponseIds.isSome then before
    else { before with turn := { before.turn with usage := charged } } with hafter
  have hbill : after.bill = if before.bill.responseIds.isSome then before.bill
      else ⟨before.bill.turn, charged, before.bill.responseIds⟩ :=
    apply_ite NativeTurnBinding.bill _ _ _
  have hafterTurn : after.bill.turn = (threadId, nativeTurnId) := by
    rw [hbill]
    split <;> exact hturn
  have hadvance : advanceTurn event threadId (begun state event threadId nativeTurnId) =
      some { begun state event threadId nativeTurnId with
        binding := after
        threadUsage := state.threadUsage.set threadId (publicUsage total) } := by
    have hcharge : advanceTurn event threadId (begun state event threadId nativeTurnId) =
        some (chargeTotals event threadId (begun state event threadId nativeTurnId)) := by
      simp [advanceTurn, hmethod]
    rw [hcharge, chargeTotals]
    rw [totalTokensOf] at htotal
    obtain ⟨tokenUsage, hrecord, htotal⟩ := Option.bind_eq_some_iff.1 htotal
    rw [hrecord, Option.getD_some, htotal]
    dsimp only
    rw [hafter, hcharged, ← hdifference]
    rfl
  refine charged_advanced h.apart hfresh hadvance hafterTurn ?_
  have hpays' : (ledger.grow after.bill.turn (publicUsage total)).Pays after.bill := by
    have hgrow := hpays.grow (publicUsage total)
    rw [hturn] at hgrow hbill
    rw [hafterTurn, hbill]
    exact hgrow
  have husage : state.threadUsage.set threadId (publicUsage total) =
      state.threadUsage.set after.bill.turn.1 (publicUsage total) := by rw [hafterTurn]
  have hcharge := h.grow hwhole husage hpays'
  rw [hafterTurn] at hcharge ⊢
  exact hcharge

/-! ## Notifications -/

/-- Only responses and totals are charged. -/
theorem advanceTurn_bill {before after : Advance}
    (h : advanceTurn event threadId before = some after)
    (hresponse : event.method = "rawResponse/completed" →
      stringOf event.params "responseId" = none ∨ recordOf event.params "usage" = none)
    (htotal : event.method ≠ "thread/tokenUsage/updated") :
    after.binding.bill = before.binding.bill ∧ after.threadUsage = before.threadUsage := by
  unfold advanceTurn at h
  dsimp only at h
  split at h
  · unfold failTurn at h
    split at h
    · exact absurd h (by simp)
    · obtain rfl := Option.some.inj h
      exact ⟨rfl, rfl⟩
  split at h
  · obtain rfl := Option.some.inj h
    exact ⟨rfl, rfl⟩
  split at h
  · next hmethod =>
    rw [chargeResponse] at h
    rcases hresponse hmethod with hnone | hnone
    · rw [hnone] at h
      obtain rfl := Option.some.inj h
      exact ⟨rfl, rfl⟩
    · rw [hnone] at h
      rcases hid : stringOf event.params "responseId" with _ | responseId
      all_goals rw [hid] at h
      · obtain rfl := Option.some.inj h
        exact ⟨rfl, rfl⟩
      · obtain rfl := Option.some.inj h
        exact ⟨rfl, rfl⟩
  obtain rfl := Option.some.inj h
  exact ⟨rfl, rfl⟩

theorem charged_same (h : Charged state.bills state.threadUsage ledger)
    (hresponse : event.method = "rawResponse/completed" →
      stringOf event.params "responseId" = none ∨ recordOf event.params "usage" = none)
    (htotal : event.method ≠ "thread/tokenUsage/updated") :
    Charged (reduceTurn state event threadId nativeTurnId).bills
      (reduceTurn state event threadId nativeTurnId).threadUsage ledger := by
  have hfresh : ¬ (event.method = "thread/tokenUsage/updated" ∧
      isLatest state (threadId, nativeTurnId) = false) := fun hskip ↦ htotal hskip.1
  rcases hadvance : advanceTurn event threadId (begun state event threadId nativeTurnId) with
    _ | advance
  · have hstays : reduceTurn state event threadId nativeTurnId = state := by
      rw [reduceTurn_latest, if_neg hfresh, hadvance]
    rw [hstays]
    exact h
  · obtain ⟨hbill, husage⟩ := advanceTurn_bill hadvance hresponse htotal
    have hpays : ledger.Pays advance.binding.bill := by
      rw [hbill]
      exact h.pays_turnOf event.observedAt
    refine charged_advanced h.apart hfresh hadvance ?_ ?_
    · rw [hbill]
      exact Prod.ext (turnOf_threadId event.observedAt).1 (turnOf_threadId event.observedAt).2
    · rw [husage]
      exact h.keep hpays

/-- A cumulative count of tokens says what the total is. -/
def ReportsTotal (event : SessionRuntimeEvent) : Prop :=
  event.method = "thread/tokenUsage/updated" → (totalTokensOf event).isSome

instance (event : SessionRuntimeEvent) : Decidable (ReportsTotal event) :=
  inferInstanceAs (Decidable (_ → _))

/-- **The step lemma of charges.** -/
theorem charged_reduceTurn (h : Charged state.bills state.threadUsage ledger)
    (hconcerned : concernedTurn state event = some (threadId, nativeTurnId))
    (htotal : ReportsTotal event)
    (hgrowing : ∀ thread, ((ledger.note state event).totals thread).IsChain TokenUsage.Grows) :
    Charged (reduceTurn state event threadId nativeTurnId).bills
      (reduceTurn state event threadId nativeTurnId).threadUsage (ledger.note state event) := by
  -- A notification is a response, a cumulative count, or one that charges nothing.
  by_cases hresponse : event.method = "rawResponse/completed"
  · have hnoTotal : reportedTotal state event = none := by
      rw [reportedTotal, hresponse]
      rfl
    have hreported : reportedResponse state event =
        (stringOf event.params "responseId").bind fun responseId ↦
          (recordOf event.params "usage").bind fun usage ↦
            some ((threadId, nativeTurnId), responseId, publicUsage usage) := by
      rw [reportedResponse, if_pos hresponse, hconcerned]
      rfl
    rw [Ledger.note, hnoTotal, hreported]
    rcases hid : stringOf event.params "responseId" with _ | responseId
    · exact charged_same h (fun _ ↦ .inl hid) (by rw [hresponse]; decide)
    · rcases husage : recordOf event.params "usage" with _ | usage
      · exact charged_same h (fun _ ↦ .inr husage) (by rw [hresponse]; decide)
      · exact charged_response h hresponse hid husage
  · have hnoResponse : reportedResponse state event = none := by
      rw [reportedResponse, if_neg hresponse]
    rw [Ledger.note, hnoResponse] at hgrowing ⊢
    by_cases hmethod : event.method = "thread/tokenUsage/updated"
    · obtain ⟨total, htotal⟩ := Option.isSome_iff_exists.1 (htotal hmethod)
      have hreported : reportedTotal state event = if isLatest state (threadId, nativeTurnId) then
          some ((threadId, nativeTurnId), publicUsage total) else none := by
        rw [reportedTotal, if_pos hmethod, hconcerned, htotal]
        rfl
      rw [hreported] at hgrowing ⊢
      by_cases hlatest : isLatest state (threadId, nativeTurnId) = true
      · rw [if_pos hlatest] at hgrowing ⊢
        refine charged_total h hmethod hlatest htotal fun last hlast ↦ ?_
        have hchain := hgrowing threadId
        dsimp only [Ledger.grow] at hchain
        rw [Function.update_self, List.isChain_append] at hchain
        exact hchain.2.2 last hlast _ rfl
      · have hstays : reduceTurn state event threadId nativeTurnId = state := by
          rw [reduceTurn_latest, if_pos ⟨hmethod, Bool.eq_false_iff.2 hlatest⟩]
        rw [if_neg hlatest, hstays]
        exact h
    · have hnoTotal : reportedTotal state event = none := by
        rw [reportedTotal, if_neg hmethod]
      rw [hnoTotal]
      exact charged_same h (fun hmethod ↦ absurd hmethod hresponse) hmethod

end

/-! ## Runs -/

section

variable {parse : String → Option JsonValue} {state : SessionRuntimeState}
  {event : SessionRuntimeEvent} {ledger : Ledger}

theorem note_of_method (hresponse : event.method ≠ "rawResponse/completed")
    (htotal : event.method ≠ "thread/tokenUsage/updated") : ledger.note state event = ledger := by
  rw [Ledger.note, reportedResponse, if_neg hresponse, reportedTotal, if_neg htotal]

theorem note_of_not_concerned (h : concernedTurn state event = none) :
    ledger.note state event = ledger := by
  have hresponse : reportedResponse state event = none := by
    rw [reportedResponse, h]
    exact ite_self none
  have htotal : reportedTotal state event = none := by
    rw [reportedTotal, h]
    exact ite_self none
  rw [Ledger.note, hresponse, htotal]

/-- What a move leaves alone that charges no Turn. -/
structure SameBills (before after : SessionRuntimeState) : Prop where
  bills : after.bills = before.bills
  threadUsage : after.threadUsage = before.threadUsage

theorem SameBills.charged {before after : SessionRuntimeState} (h : SameBills before after)
    (hcharged : Charged before.bills before.threadUsage ledger) :
    Charged after.bills after.threadUsage ledger := by
  rw [h.bills, h.threadUsage]
  exact hcharged

theorem bills_of_map {before after : SessionRuntimeState}
    {f : NativeTurnBinding → NativeTurnBinding}
    (h : after.turns = before.turns.map f) (hf : ∀ binding, (f binding).bill = binding.bill) :
    after.bills = before.bills := by
  rw [bills, h, List.map_map]
  exact List.map_congr_left fun binding _ ↦ hf binding

theorem sameBills_startThread (id : String) (thread : JsonValue) (now : ℚ) :
    SameBills state (startThread state id thread now) := by
  unfold startThread
  dsimp only
  split
  · exact ⟨rfl, rfl⟩
  · split <;> exact ⟨rfl, rfl⟩

theorem sameBills_closeThread (id : String) (now : ℚ) :
    SameBills state (closeThread state id now) := by
  refine ⟨bills_of_map rfl fun binding ↦ ?_, rfl⟩
  dsimp only
  split <;> rfl

theorem sameBills_announced : SameBills state
    (announceReceivers (planNativeCoordination parse state event).1
      (planNativeCoordination parse state event).2) := by
  have hplanned : SameBills state (planNativeCoordination parse state event).1 := by
    rw [planNativeCoordination_planned.book]
    exact ⟨rfl, rfl⟩
  refine announceReceivers_preserves (P := SameBills state) (fun s id thread now hs ↦ ?_)
    (fun s id now _ hs ↦ ?_) hplanned
  · obtain ⟨hbills, husage⟩ := @sameBills_startThread s id thread now
    exact ⟨hbills.trans hs.bills, husage.trans hs.threadUsage⟩
  · obtain ⟨hbills, husage⟩ := @sameBills_closeThread s id now
    exact ⟨hbills.trans hs.bills, husage.trans hs.threadUsage⟩

theorem charged_reduceEvent (h : Charged state.bills state.threadUsage ledger)
    (htotal : ReportsTotal event)
    (hgrowing : ∀ thread, ((ledger.note state event).totals thread).IsChain TokenUsage.Grows) :
    Charged (reduceEvent state event).bills (reduceEvent state event).threadUsage
      (ledger.note state event) := by
  unfold reduceEvent
  split
  · next id thread hstarted =>
    have hmethod : event.method = "thread/started" := by
      by_contra hne
      rw [startedThread, if_neg hne] at hstarted
      exact Option.some_ne_none _ hstarted.symm
    rw [note_of_method (by rw [hmethod]; decide) (by rw [hmethod]; decide)]
    exact (sameBills_startThread id thread event.observedAt).charged h
  unfold reduceThread
  split
  · next hthread =>
    rw [note_of_not_concerned (by rw [concernedTurn, hthread]; rfl)]
    exact h
  next threadId hthread =>
  have hconcerned : concernedTurn state event = if state.knows threadId && concernsTurn event then
      (nativeTurnIdOf state event threadId).map (threadId, ·) else none := by
    rw [concernedTurn, hthread]
    rfl
  split
  · next hunknown =>
    rw [note_of_not_concerned (by rw [hconcerned, if_neg (by simp_all)])]
    exact h
  next hknows =>
  have hknows : state.knows threadId = true := by simpa using hknows
  split
  · next hclosed =>
    have hmethods : event.method = "thread/closed" ∨ event.method = "thread/archived" := by
      simpa using hclosed
    have hnote : ledger.note state event = ledger := by
      rcases hmethods with hmethod | hmethod
      · exact note_of_method (by rw [hmethod]; decide) (by rw [hmethod]; decide)
      · exact note_of_method (by rw [hmethod]; decide) (by rw [hmethod]; decide)
    rw [hnote]
    exact (sameBills_closeThread threadId event.observedAt).charged h
  split
  · next hnative =>
    rw [note_of_not_concerned (by rw [hconcerned, hnative]; exact ite_self none)]
    exact h
  next nativeTurnId hnative =>
  split
  · next hconcerns =>
    refine charged_reduceTurn h ?_ htotal hgrowing
    rw [hconcerned, hnative, hknows, hconcerns]
    rfl
  · next hconcerns =>
    rw [note_of_not_concerned (by rw [hconcerned, if_neg (by simp [hconcerns])])]
    exact h

theorem reportsTotal_planned (h : ReportsTotal event) :
    ReportsTotal (planNativeCoordination parse state event).2 := by
  rcases (@planNativeCoordination_planned parse state event).origin with
    ⟨hevent, -⟩ | ⟨threadId, turnId, id, call, status, -, -, -, -, -, hevent⟩
  · rw [hevent]
    exact h
  · intro hmethod
    rw [hevent] at hmethod
    rcases @coordinationEvent_method event id call status with hother | hother
    · exact absurd (hother.symm.trans hmethod) (by decide)
    · exact absurd (hother.symm.trans hmethod) (by decide)

/-- A Turn that gets its API id keeps its bill, and so do the others. -/
theorem bills_attached {index : ℕ} {turn : Turn} {previous : String} :
    ((state.turns.mapIdx fun i entry ↦
      if i = index then entry.attach turn else entry.reparent previous turn.id).map (·.bill)) =
        state.bills := by
  refine List.ext_getElem? fun i ↦ ?_
  rw [List.getElem?_map, getElem?_attached, bills, List.getElem?_map, Option.map_map]
  congr 1
  funext entry
  rw [Function.comp_apply]
  split
  · rfl
  · unfold NativeTurnBinding.reparent
    split <;> rfl

theorem charged_bind (parse : String → Option JsonValue) {nativeTurnId : String} {turn : Turn}
    (husage : turn.usage = none) (h : Charged state.bills state.threadUsage ledger) :
    Charged ((RuntimeAction.bind nativeTurnId turn).apply parse state).bills
      ((RuntimeAction.bind nativeTurnId turn).apply parse state).threadUsage ledger := by
  rcases @bind_cases parse state nativeTurnId turn with
    hsame | ⟨-, ⟨habsent, happlied⟩ | ⟨index, previous, -, happlied⟩⟩
  · rw [hsame]
    exact h
  · -- The Turn is new, and nothing was reported to it.
    set fresh : NativeTurnBinding := ⟨state.rootThreadId, nativeTurnId, turn, [], none, none, []⟩
    have hput : putTurn state state.rootThreadId nativeTurnId fresh = state.turns ++ [fresh] := by
      rw [putTurn, habsent]
    have hbill : fresh.bill = (turnOf state state.rootThreadId nativeTurnId 0).bill := by
      rw [turnOf, habsent]
      change (⟨(state.rootThreadId, nativeTurnId), turn.usage, none⟩ : Bill) = _
      rw [husage]
      rfl
    have hpays : ledger.Pays fresh.bill := by
      rw [hbill]
      exact h.pays_turnOf 0
    rw [happlied]
    change Charged ((state.turns ++ [fresh]).map (·.bill)) state.threadUsage ledger
    rw [← hput]
    exact (h.keep hpays).perm (bills_putTurn h.apart rfl)
  · have hbills : SameBills state ((RuntimeAction.bind nativeTurnId turn).apply parse state) := by
      rw [happlied]
      exact ⟨bills_attached, rfl⟩
    exact hbills.charged h

theorem sameBills_resolve {turnId callId : String} {result : Option (ℚ × Bool)} :
    SameBills state (resolveSessionFunction state turnId callId result) := by
  have hresume (binding : NativeTurnBinding) (actions : List RequiredAction) :
      (binding.resume turnId actions).bill = binding.bill := by
    unfold NativeTurnBinding.resume
    split <;> rfl
  have hstep (binding : NativeTurnBinding) (completedAt : ℚ) (success : Bool) :
      (binding.resolveStep turnId callId completedAt success).bill = binding.bill := by
    unfold NativeTurnBinding.resolveStep
    split <;> rfl
  rcases result with _ | ⟨completedAt, success⟩
  · exact ⟨bills_of_map rfl fun binding ↦ hresume binding _, rfl⟩
  · refine ⟨bills_of_map List.map_map fun binding ↦ ?_, rfl⟩
    exact (hresume _ _).trans (hstep binding completedAt success)

theorem sameBills_stopped (now : ℚ) : SameBills state (stoppedSessionRuntime state now) := by
  refine ⟨bills_of_map rfl fun binding ↦ ?_, rfl⟩
  dsimp only
  split <;> rfl

/-- An action is one that the account allows for: counts of tokens say what the total is, and an API
Turn that is bound has not run before. -/
def RuntimeAction.Accountable : RuntimeAction → Prop
  | .native event => ReportsTotal event
  | .bind _ turn => turn.usage = none
  | _ => True

theorem charged_audit {action : RuntimeAction} (h : Charged state.bills state.threadUsage ledger)
    (haction : action.Accountable)
    (hgrowing : ∀ thread, ((audit parse (state, ledger) action).2.totals thread).IsChain
      TokenUsage.Grows) :
    Charged (audit parse (state, ledger) action).1.bills
      (audit parse (state, ledger) action).1.threadUsage
        (audit parse (state, ledger) action).2 := by
  rcases action with event | ⟨nativeTurnId, turn⟩ | ⟨turnId, callId, result⟩ | now
  · exact charged_reduceEvent (sameBills_announced.charged h)
      (reportsTotal_planned haction) hgrowing
  · exact charged_bind parse haction h
  · exact sameBills_resolve.charged h
  · exact (sameBills_stopped now).charged h

/-- What a notification is noted as. -/
theorem note_cases :
    (∃ turn response, ledger.note state event = ledger.receive turn response) ∨
      (∃ turn total, ledger.note state event = ledger.grow turn total) ∨
        ledger.note state event = ledger := by
  unfold Ledger.note
  split
  · exact .inl ⟨_, _, rfl⟩
  · exact .inr (.inl ⟨_, _, rfl⟩)
  · exact .inr (.inr rfl)

theorem Ledger.totals_grow (turn : String × String) (total : TokenUsage) (thread : String) :
    (ledger.grow turn total).totals thread =
      if thread = turn.1 then ledger.totals turn.1 ++ [total] else ledger.totals thread := by
  rw [Ledger.grow]
  exact Function.update_apply ..

/-- The totals of a thread are only ever added to. -/
theorem totals_prefix_note (thread : String) :
    ledger.totals thread <+: (ledger.note state event).totals thread := by
  rcases @note_cases state event ledger with
    ⟨turn, response, hnote⟩ | ⟨turn, total, hnote⟩ | hnote
  · rw [hnote]
    exact List.prefix_rfl
  · rw [hnote, Ledger.totals_grow]
    split
    · next hthread =>
      rw [hthread]
      exact List.prefix_append _ _
    · exact List.prefix_rfl
  · simp only [hnote, List.prefix_rfl]

theorem totals_prefix_audit {action : RuntimeAction} (thread : String) :
    ledger.totals thread <+: (audit parse (state, ledger) action).2.totals thread := by
  rcases action with event | _ | _ | _
  · exact totals_prefix_note thread
  · exact List.prefix_rfl
  · exact List.prefix_rfl
  · exact List.prefix_rfl

/-- The account beside a run is one of that run. -/
theorem runAudited_state {actions : List RuntimeAction} {audited : SessionRuntimeState × Ledger} :
    (runAudited parse actions audited).1 = runActions parse actions audited.1 := by
  induction actions generalizing audited with
  | nil => rfl
  | cons action actions ih => exact ih

/-- **The run lemma of charges.** -/
theorem charged_run {actions : List RuntimeAction}
    (h : Charged state.bills state.threadUsage ledger)
    (hactions : ∀ action ∈ actions, action.Accountable)
    (hgrowing : ∀ thread, ((runAudited parse actions (state, ledger)).2.totals thread).IsChain
      TokenUsage.Grows) :
    Charged (runAudited parse actions (state, ledger)).1.bills
      (runAudited parse actions (state, ledger)).1.threadUsage
      (runAudited parse actions (state, ledger)).2 := by
  induction actions using List.reverseRecOn with
  | nil => exact h
  | append_singleton actions action ih =>
    rw [runAudited, List.foldl_concat] at hgrowing ⊢
    rw [List.forall_mem_append, List.forall_mem_singleton] at hactions
    refine charged_audit (ih hactions.1 fun thread ↦ ?_) hactions.2 hgrowing
    obtain ⟨rest, hrest⟩ := @totals_prefix_audit parse _ _ action thread
    have hchain := hgrowing thread
    rw [← hrest, List.isChain_append] at hchain
    exact hchain.1

/-- What a total has grown by is a natural number, if totals are and do not fall. -/
theorem natural_grow {turn : String × String} {total : TokenUsage}
    (hwhole : (ledger.grow turn total).Whole)
    (hgrowing : ∀ thread, ((ledger.grow turn total).totals thread).IsChain TokenUsage.Grows)
    (htotals : ∀ thread, ∀ total' ∈ (ledger.grow turn total).totals thread, total'.Natural) :
    (total.since (ledger.lastTotal turn.1)).Natural := by
  have hlist : (ledger.grow turn total).totals turn.1 = ledger.totals turn.1 ++ [total] := by
    rw [Ledger.totals_grow, if_pos rfl]
  have hnatural := htotals turn.1
  have hsum := hwhole.totals turn.1
  have hchain := hgrowing turn.1
  rw [hlist] at hnatural hsum hchain
  have hlast : total ∈ ledger.totals turn.1 ++ [total] :=
    List.mem_append_right _ List.mem_cons_self
  rw [Ledger.lastTotal]
  rcases hbefore : (ledger.totals turn.1).getLast? with _ | before
  · have hzero : total.since 0 = total := by
      have hadd := TokenUsage.add_since total 0
      rwa [zero_add] at hadd
    rw [Option.getD_none, hzero]
    exact hnatural total hlast
  · have hmem : before ∈ ledger.totals turn.1 ++ [total] :=
      List.mem_append_left _ (List.mem_of_getLast? hbefore)
    have hgrows : before.Grows total := (List.isChain_append.mp hchain).2.2 before hbefore total rfl
    exact (hnatural total hlast).since (hnatural before hmem) hgrows (hsum total hlast)
      (hsum before hmem)

theorem natural_note (hwhole : (ledger.note state event).Whole)
    (hgrowing : ∀ thread, ((ledger.note state event).totals thread).IsChain TokenUsage.Grows)
    (htotals : ∀ thread, ∀ total ∈ (ledger.note state event).totals thread, total.Natural)
    (h : ∀ turn, ∀ usage ∈ ledger.increments turn, usage.Natural) :
    ∀ turn, ∀ usage ∈ (ledger.note state event).increments turn, usage.Natural := by
  rcases @note_cases state event ledger with
    ⟨concerned, response, hnote⟩ | ⟨concerned, total, hnote⟩ | hnote
  · rw [hnote]
    exact h
  · rw [hnote] at hwhole hgrowing htotals ⊢
    intro turn usage husage
    rw [Ledger.grow] at husage
    dsimp only at husage
    rw [Function.update_apply] at husage
    split at husage
    · rcases List.mem_append.mp husage with hold | hnew
      · exact h concerned usage hold
      · rw [List.mem_singleton.mp hnew]
        exact natural_grow hwhole hgrowing htotals
    · exact h turn usage husage
  · rw [hnote]
    exact h

theorem natural_audit {action : RuntimeAction}
    (hcharged : Charged (audit parse (state, ledger) action).1.bills
      (audit parse (state, ledger) action).1.threadUsage (audit parse (state, ledger) action).2)
    (hgrowing : ∀ thread, ((audit parse (state, ledger) action).2.totals thread).IsChain
      TokenUsage.Grows)
    (htotals : ∀ thread, ∀ total ∈ (audit parse (state, ledger) action).2.totals thread,
      total.Natural)
    (h : ∀ turn, ∀ usage ∈ ledger.increments turn, usage.Natural) :
    ∀ turn, ∀ usage ∈ (audit parse (state, ledger) action).2.increments turn, usage.Natural := by
  rcases action with event | _ | _ | _
  · exact natural_note hcharged.whole hgrowing htotals h
  · exact h
  · exact h
  · exact h

/-- **The run lemma of growth.** -/
theorem natural_run {actions : List RuntimeAction}
    (h : Charged state.bills state.threadUsage ledger)
    (hactions : ∀ action ∈ actions, action.Accountable)
    (hgrowing : ∀ thread, ((runAudited parse actions (state, ledger)).2.totals thread).IsChain
      TokenUsage.Grows)
    (htotals : ∀ thread, ∀ total ∈ (runAudited parse actions (state, ledger)).2.totals thread,
      total.Natural)
    (hnatural : ∀ turn, ∀ usage ∈ ledger.increments turn, usage.Natural) :
    ∀ turn, ∀ usage ∈ (runAudited parse actions (state, ledger)).2.increments turn,
      usage.Natural := by
  induction actions using List.reverseRecOn with
  | nil => exact hnatural
  | append_singleton actions action ih =>
    have hcharged := charged_run h hactions hgrowing
    rw [runAudited, List.foldl_concat] at hgrowing htotals hcharged ⊢
    rw [List.forall_mem_append, List.forall_mem_singleton] at hactions
    refine natural_audit hcharged hgrowing htotals
      (ih hactions.1 (fun thread ↦ ?_) fun thread total htotal ↦ ?_)
    · obtain ⟨rest, hrest⟩ := @totals_prefix_audit parse _ _ action thread
      have hchain := hgrowing thread
      rw [← hrest, List.isChain_append] at hchain
      exact hchain.1
    · exact htotals thread total ((@totals_prefix_audit parse _ _ action thread).subset htotal)

theorem charged_initial (sessionId agentId rootThreadId : String) :
    Charged (initialSessionRuntime sessionId agentId rootThreadId).bills
      (initialSessionRuntime sessionId agentId rootThreadId).threadUsage .empty :=
  ⟨List.nodup_nil, fun _ hbill ↦ absurd hbill List.not_mem_nil, fun _ _ ↦ ⟨rfl, rfl⟩, fun _ ↦ rfl,
    ⟨fun _ _ hmem ↦ absurd hmem List.not_mem_nil, fun _ _ hmem ↦ absurd hmem List.not_mem_nil,
      fun _ _ hmem ↦ absurd hmem List.not_mem_nil⟩, fun _ ↦ rfl⟩

/-- A Turn keeps its place, its coordinates and its usage when an API Turn is bound. -/
theorem usage_bindSessionTurn {nativeTurnId : String} {turn : Turn} {bound : SessionRuntimeState}
    (h : bindSessionTurn state nativeTurnId turn = .ok bound) {i : ℕ} {binding : NativeTurnBinding}
    (hi : state.turns[i]? = some binding) : ∃ after, bound.turns[i]? = some after ∧
      after.coordinates = binding.coordinates ∧ after.turn.usage = binding.turn.usage := by
  have happly : (RuntimeAction.bind nativeTurnId turn).apply (fun _ ↦ none) state = bound := by
    change (bindSessionTurn state nativeTurnId turn).toOption.getD state = bound
    rw [h]
    rfl
  rcases @bind_cases (fun _ ↦ none) state nativeTurnId turn with
    hsame | ⟨-, ⟨-, happlied⟩ | ⟨index, previous, -, happlied⟩⟩
  · rw [← happly, hsame]
    exact ⟨binding, hi, rfl, rfl⟩
  · rw [← happly, happlied]
    refine ⟨binding, ?_, rfl, rfl⟩
    rw [List.getElem?_append_left (List.getElem?_eq_some_iff.1 hi).1]
    exact hi
  · have hbills : bound.bills = state.bills := by
      rw [← happly, happlied]
      exact bills_attached
    have hbill : (bound.turns[i]?).map (·.bill) = some binding.bill := by
      rw [← List.getElem?_map]
      change bound.bills[i]? = _
      rw [hbills, bills, List.getElem?_map, hi]
      rfl
    obtain ⟨after, hafter, hsame⟩ := Option.map_eq_some_iff.1 hbill
    exact ⟨after, hafter, congrArg Bill.turn hsame, congrArg Bill.usage hsame⟩

/-- Where a thread has no exact reports, nothing of its last total is lost. -/
theorem Charged.sum_usage {threadId : String} (h : Charged state.bills state.threadUsage ledger)
    (hestimated : ∀ binding ∈ state.turns, binding.threadId = threadId →
      ledger.responses binding.coordinates = []) :
    ((state.turns.filter (·.threadId = threadId)).map (·.turn.usage.getD 0)).sum =
      ledger.lastTotal threadId := by
  rw [← h.telescoped threadId, bills, List.map_map, List.filter_map, List.map_map]
  refine congrArg List.sum (List.map_congr_left fun binding hbinding ↦ ?_)
  obtain ⟨hmem, hthread⟩ := List.mem_filter.1 hbinding
  have hpaid : binding.turn.usage = ledger.usage binding.coordinates :=
    (h.paid binding.bill (List.mem_map_of_mem hmem)).1
  rw [hpaid, Ledger.usage, hestimated binding hmem (of_decide_eq_true hthread),
    if_neg (not_not_intro rfl)]
  change _ = (ledger.increments binding.coordinates).sum
  split
  · next hnone =>
    rw [hnone]
    rfl
  · rfl

/-- What a Turn has been charged is represented by doubles, if what was reported is. -/
theorem Charged.exact_usage (h : Charged state.bills state.threadUsage ledger)
    (hexact : ledger.Exact)
    (hnatural : ∀ turn, ∀ usage ∈ ledger.increments turn, usage.Natural)
    {binding : NativeTurnBinding} (hbinding : binding ∈ state.turns) {usage : TokenUsage}
    (husage : binding.turn.usage = some usage) : usage.Exact := by
  have hpaid : binding.turn.usage = ledger.usage binding.coordinates :=
    (h.paid binding.bill (List.mem_map_of_mem hbinding)).1
  rw [husage, Ledger.usage] at hpaid
  split at hpaid
  · obtain rfl := Option.some.inj hpaid
    exact (hexact.responses binding.coordinates).2
  · split at hpaid
    · exact absurd hpaid (Option.some_ne_none usage)
    · next hsome =>
      obtain rfl := Option.some.inj hpaid
      -- The growth of a Turn is a part of the last total of its thread.
      have hlast : (ledger.lastTotal binding.threadId).Exact := by
        rw [Ledger.lastTotal]
        rcases hlast : (ledger.totals binding.threadId).getLast? with _ | total
        · exact TokenUsage.exact_zero
        · exact hexact.totals _ total (List.mem_of_getLast? hlast)
      rw [← h.telescoped] at hlast
      refine hlast.of_mem_sum (fun growth hgrowth ↦ ?_) ?_
      · obtain ⟨turn, -, rfl⟩ := List.mem_map.mp hgrowth
        exact TokenUsage.Natural.sum (hnatural turn)
      · refine List.mem_map_of_mem (f := fun turn ↦ (ledger.increments turn).sum)
          (List.mem_filter.mpr ⟨?_, decide_eq_true rfl⟩)
        exact List.mem_map_of_mem (f := Bill.turn) (List.mem_map_of_mem hbinding)

/-- What a Turn has been charged is whole. -/
theorem Charged.whole_usage (h : Charged state.bills state.threadUsage ledger)
    {binding : NativeTurnBinding} (hbinding : binding ∈ state.turns) {usage : TokenUsage}
    (husage : binding.turn.usage = some usage) : usage.Whole := by
  have hpaid : binding.turn.usage = ledger.usage binding.coordinates :=
    (h.paid binding.bill (List.mem_map_of_mem hbinding)).1
  rw [husage, Ledger.usage] at hpaid
  split at hpaid
  · obtain rfl := Option.some.inj hpaid
    refine TokenUsage.Whole.sum fun response hresponse ↦ ?_
    obtain ⟨first, hfirst, rfl⟩ := List.mem_map.1 hresponse
    exact h.whole.responses _ first (firstReports_subset first hfirst)
  · split at hpaid
    · exact absurd hpaid (Option.some_ne_none usage)
    · obtain rfl := Option.some.inj hpaid
      exact TokenUsage.Whole.sum (h.whole.increments _)

end

/-- **Usage is charged once.** A Turn has what the reports to it add up to, where a response counts
once and exact reports replace the growth of the thread's total; the Turns of a thread without exact
reports have its last total together; all tokens are those of the input and of the output; and
binding an API Turn changes no usage. If doubles represent what was reported, they represent all
that is charged. -/
theorem usage_charged_once (parse : String → Option JsonValue)
    (sessionId agentId rootThreadId : String) (actions : List RuntimeAction)
    (hactions : ∀ action ∈ actions, action.Accountable)
    (hgrowing : ∀ thread, ((runAudited parse actions
      (initialSessionRuntime sessionId agentId rootThreadId, .empty)).2.totals thread).IsChain
        TokenUsage.Grows)
    (hexact : (runAudited parse actions
      (initialSessionRuntime sessionId agentId rootThreadId, .empty)).2.Exact) :
    let state := runActions parse actions (initialSessionRuntime sessionId agentId rootThreadId)
    let ledger := (runAudited parse actions
      (initialSessionRuntime sessionId agentId rootThreadId, .empty)).2
    (∀ binding ∈ state.turns, binding.turn.usage = ledger.usage binding.coordinates ∧
      ∀ usage, binding.turn.usage = some usage → usage.Exact ∧
        usage.totalTokens = usage.inputTokens + usage.outputTokens) ∧
    (∀ threadId, (∀ binding ∈ state.turns, binding.threadId = threadId →
        ledger.responses binding.coordinates = []) →
      ((state.turns.filter (·.threadId = threadId)).map (·.turn.usage.getD 0)).sum =
        ledger.lastTotal threadId) ∧
    ∀ nativeTurnId turn bound, bindSessionTurn state nativeTurnId turn = .ok bound →
      ∀ (i : ℕ) binding, state.turns[i]? = some binding → ∃ after, bound.turns[i]? = some after ∧
        after.coordinates = binding.coordinates ∧ after.turn.usage = binding.turn.usage := by
  intro state ledger
  have hinitial := charged_initial sessionId agentId rootThreadId
  have hcharged : Charged state.bills state.threadUsage ledger := by
    have hrun := charged_run hinitial hactions hgrowing
    rwa [runAudited_state] at hrun
  have hnatural : ∀ turn, ∀ usage ∈ ledger.increments turn, usage.Natural := by
    refine natural_run hinitial hactions hgrowing (fun thread total htotal ↦ ?_) ?_
    · exact (hexact.totals thread total htotal).natural
    · exact fun _ _ husage ↦ absurd husage List.not_mem_nil
  refine ⟨fun binding hbinding ↦ ⟨?_, ?_⟩, ?_, ?_⟩
  · exact (hcharged.paid binding.bill (List.mem_map_of_mem hbinding)).1
  · intro usage husage
    exact ⟨hcharged.exact_usage hexact hnatural hbinding husage,
      hcharged.whole_usage hbinding husage⟩
  · intro threadId hestimated
    exact hcharged.sum_usage hestimated
  · intro nativeTurnId turn bound hbound i binding hi
    exact usage_bindSessionTurn hbound hi

def usageEvent (method nativeTurnId : String) (fields : List (String × JsonValue)) :
    SessionRuntimeEvent :=
  ⟨method, .object ([("threadId", .string "root"), ("turnId", .string nativeTurnId)] ++ fields),
    100⟩

def tokenCount (input output : ℚ) : JsonValue :=
  .object [("inputTokens", .number input), ("outputTokens", .number output)]

/-- A Turn is bound; a response of it is reported twice, and the total of its thread before that and
during the next Turn, which comes with the first total once more. -/
def sampleUsage : List RuntimeAction :=
  [.bind "native-1" ⟨"turn_1", "session", "agent", none, .inProgress, 5, none, none, none, none⟩,
    .native (usageEvent "thread/tokenUsage/updated" "native-1"
      [("tokenUsage", .object [("total", tokenCount 5 1)])]),
    .native (usageEvent "rawResponse/completed" "native-1"
      [("responseId", .string "response-1"), ("usage", tokenCount 7 2)]),
    .native (usageEvent "rawResponse/completed" "native-1"
      [("responseId", .string "response-1"), ("usage", tokenCount 7 2)]),
    .native (usageEvent "thread/tokenUsage/updated" "native-2"
      [("tokenUsage", .object [("total", tokenCount 12 4)])]),
    .native (usageEvent "thread/tokenUsage/updated" "native-1"
      [("tokenUsage", .object [("total", tokenCount 5 1)])])]

theorem sampleUsage_charged :
    (runActions (fun _ ↦ none) sampleUsage
      (initialSessionRuntime "session" "agent" "root")).turns.map
        (·.turn.usage) = [some ⟨7, 2, 9, 0, 0⟩, some ⟨7, 3, 10, 0, 0⟩] ∧
      (runAudited (fun _ ↦ none) sampleUsage
        (initialSessionRuntime "session" "agent" "root", .empty)).2.lastTotal "root" =
          ⟨12, 4, 16, 0, 0⟩ ∧
      ∀ binding ∈ (runActions (fun _ ↦ none) sampleUsage
        (initialSessionRuntime "session" "agent" "root")).turns,
        binding.turn.usage = (runAudited (fun _ ↦ none) sampleUsage
          (initialSessionRuntime "session" "agent" "root", .empty)).2.usage
            binding.coordinates := by
  have htotals : (runAudited (fun _ ↦ none) sampleUsage
      (initialSessionRuntime "session" "agent" "root", .empty)).2.totals =
        Function.update (Function.update (fun _ ↦ []) "root" [publicUsage (tokenCount 5 1)]) "root"
          [publicUsage (tokenCount 5 1), publicUsage (tokenCount 12 4)] := rfl
  have hresponses : (runAudited (fun _ ↦ none) sampleUsage
      (initialSessionRuntime "session" "agent" "root", .empty)).2.responses =
        Function.update (Function.update (fun _ ↦ []) ("root", "native-1")
          [("response-1", publicUsage (tokenCount 7 2))]) ("root", "native-1")
            [("response-1", publicUsage (tokenCount 7 2)),
              ("response-1", publicUsage (tokenCount 7 2))] := rfl
  refine ⟨by decide +kernel, by decide +kernel, fun binding hbinding ↦ ?_⟩
  refine ((usage_charged_once
    (fun _ ↦ none) "session" "agent" "root" sampleUsage ?_ ?_ ?_).1 binding
    hbinding).1
  · intro action haction
    simp only [sampleUsage, List.mem_cons, List.not_mem_nil, or_false] at haction
    rcases haction with rfl | rfl | rfl | rfl | rfl | rfl
    · rfl
    all_goals
      change ReportsTotal _
      decide
  · intro thread
    rw [htotals, Function.update_idem, Function.update_apply]
    split
    · decide
    · exact .nil
  · constructor
    · intro turn
      rw [hresponses, Function.update_idem, Function.update_apply]
      split
      · decide +kernel
      · decide +kernel
    · intro thread
      rw [htotals, Function.update_idem, Function.update_apply]
      split
      · decide +kernel
      · exact fun _ hmem ↦ absurd hmem List.not_mem_nil

end RatThings.Runtime
