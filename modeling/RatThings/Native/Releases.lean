import Mathlib.Algebra.GroupWithZero.Nat
import Mathlib.Data.List.Induction
import RatThings.Library.Json

/-!
# Which release is active

The selection names the active release, the one that was active before it and the release that a
setup or a rollback wants next. It is written to a file at every change and read back when the
service starts, and the reader refuses a selection that is not coherent.

## Coherence

A selection that is written is coherent because the one before it was: a request only sets a release
that is not the active one, and a rollback only the previous one. `Coherent` is what the reader asks
for, and `Change` are the three things a call can do: drop the pending request, set one, or carry it
out. The induction over a sequence of calls goes through these three.

## What a run adds

The meaning of `previous` is about the history: it is the release that was active just before the
active one was (`FormerlyActive`). The generation counts the changes, and a change that would make
it unsafe as a double fails.
-/

namespace RatThings.NativeRelease

open Concurrent

/-! ## Selections -/

def isDigestCharacter (c : Char) : Bool := 'a' ≤ c && c ≤ 'f' || '0' ≤ c && c ≤ '9'

/-- `/^[a-f0-9]{64}$/.test(value)` -/
def isDigest (value : String) : Bool :=
  value.toList.length = 64 && value.toList.all isDigestCharacter

abbrev NativeReleaseId := { value : String // isDigest value }

inductive SelectionAction : Type
  | setup
  | rollback
deriving DecidableEq, Repr

structure PendingRelease where
  action : SelectionAction
  release : NativeReleaseId
deriving DecidableEq

/-- The schema version is always 1 and stands in the JSON value only. -/
structure NativeSelection where
  generation : ℕ
  active : Option NativeReleaseId
  previous : Option NativeReleaseId
  pending : Option PendingRelease
deriving DecidableEq

/-- `EMPTY_NATIVE_SELECTION` -/
def emptyNativeSelection : NativeSelection := ⟨0, none, none, none⟩

/-- `Number.MAX_SAFE_INTEGER` -/
def maxSafeInteger : ℕ := 2 ^ 53 - 1

/-! ## Reading

The reader goes through the fields in the order of the source, so that the first fault is
reported. -/

def record (value : Option (Json String)) : Except String (Json String) :=
  match value.bind Json.record? with
  | some object => .ok object
  | none => .error "Expected an object"

def nonnegative (value : Option (Json String)) : Except String ℕ :=
  match value.bind Json.number? with
  | some q =>
    if q.den = 1 ∧ 0 ≤ q.num ∧ q.num ≤ maxSafeInteger then .ok q.num.toNat
    else .error "Expected a nonnegative safe integer"
  | none => .error "Expected a nonnegative safe integer"

/-- `nativeSha256` -/
def nativeReleaseId (value : Option (Json String)) : Except String NativeReleaseId :=
  match value.bind Json.string? with
  | some text => if h : isDigest text then .ok ⟨text, h⟩ else .error "Invalid release digest"
  | none => .error "Invalid release digest"

/-- `value === null ? null : nativeReleaseId(value)` -/
def optionalReleaseId (value : Option (Json String)) : Except String (Option NativeReleaseId) :=
  if value = some .null then .ok none else some <$> nativeReleaseId value

def selectionAction (value : Option (Json String)) : Except String SelectionAction :=
  if value = some (.string "setup") then .ok .setup
  else if value = some (.string "rollback") then .ok .rollback
  else .error "Invalid pending action"

def pendingRelease (value : Option (Json String)) : Except String (Option PendingRelease) :=
  if value = some .null then .ok none
  else do
    let request ← record value
    let action ← selectionAction (request.get? "action")
    let release ← nativeReleaseId (request.get? "release")
    pure (some ⟨action, release⟩)

/-- The condition under which the reader refuses a selection. -/
def incoherent (active previous : Option NativeReleaseId)
    (pending : Option PendingRelease) : Bool :=
  active.isNone && previous.isSome || active.isSome && active = previous ||
    pending.any (fun request ↦ active = some request.release) ||
    pending.any fun request ↦ request.action = .rollback && some request.release ≠ previous

def decodeNativeSelection (value : Option (Json String)) : Except String NativeSelection := do
  let object ← record value
  if object.get? "schemaVersion" ≠ some (.number 1) then
    throw "Unsupported selection schema"
  let active ← optionalReleaseId (object.get? "active")
  let previous ← optionalReleaseId (object.get? "previous")
  let pending ← pendingRelease (object.get? "pending")
  if incoherent active previous pending then
    throw "Incoherent release selection"
  let generation ← nonnegative (object.get? "generation")
  pure ⟨generation, active, previous, pending⟩

/-! ## Writing -/

def SelectionAction.json : SelectionAction → Json String
  | .setup => .string "setup"
  | .rollback => .string "rollback"

/-- A release or `null`. -/
def releaseJson : Option NativeReleaseId → Json String
  | some release => .string release.val
  | none => .null

def pendingJson : Option PendingRelease → Json String
  | some request =>
    .object [("action", request.action.json), ("release", .string request.release.val)]
  | none => .null

/-- What `JSON.parse(JSON.stringify(selection))` gives. -/
def NativeSelection.json (selection : NativeSelection) : Json String :=
  .object [("schemaVersion", .number 1), ("generation", .number selection.generation),
    ("active", releaseJson selection.active), ("previous", releaseJson selection.previous),
    ("pending", pendingJson selection.pending)]

/-! ## Changes -/

inductive SelectionFailure : Type
  | noPrevious
  | selection (reason : String)
deriving DecidableEq, Repr

inductive NativeSelectionDecision : Type
  | unchanged (selection : NativeSelection)
  | write (selection : NativeSelection)
  | rejected (failure : SelectionFailure)
deriving DecidableEq

def nextGeneration (selection : NativeSelection) : Except String ℕ :=
  if selection.generation ≥ maxSafeInteger then .error "Selection generation exhausted"
  else .ok (selection.generation + 1)

def requestNativeSelection (selection : NativeSelection) (action : SelectionAction)
    (release : NativeReleaseId) : Except String NativeSelectionDecision :=
  if action = .rollback ∧ selection.previous ≠ some release then .ok (.rejected .noPrevious)
  else if selection.pending = some ⟨action, release⟩ then .ok (.unchanged selection)
  else if selection.active = some release then
    if selection.pending.isSome then do
      let generation ← nextGeneration selection
      pure (.write { selection with generation, pending := none })
    else .ok (.unchanged selection)
  else do
    let generation ← nextGeneration selection
    pure (.write { selection with generation, pending := some ⟨action, release⟩ })

def activateNativeSelection (selection : NativeSelection) (release : NativeReleaseId) :
    Except String NativeSelectionDecision :=
  if selection.active = some release ∧ selection.pending = none then .ok (.unchanged selection)
  else if selection.pending.map (·.release) ≠ some release then
    .ok (.rejected (.selection "Activation does not match the pending release"))
  else do
    let generation ← nextGeneration selection
    pure (.write ⟨generation, some release, selection.active, none⟩)

/-! ## Runs -/

inductive SelectionCall : Type
  | request (action : SelectionAction) (release : NativeReleaseId)
  | activate (release : NativeReleaseId)

def SelectionCall.decide (selection : NativeSelection) :
    SelectionCall → Except String NativeSelectionDecision
  | request action release => requestNativeSelection selection action release
  | activate release => activateNativeSelection selection release

/-- The selection after a call: what it wrote, if it wrote one. -/
def advance (selection : NativeSelection) (call : SelectionCall) : NativeSelection :=
  match call.decide selection with
  | .ok (.write next) => next
  | _ => selection

/-- The selection after a sequence of calls. -/
def after (calls : List SelectionCall) : NativeSelection := calls.foldl advance emptyNativeSelection

theorem after_concat (calls : List SelectionCall) (call : SelectionCall) :
    after (calls ++ [call]) = advance (after calls) call := by
  rw [after, List.foldl_append]
  rfl

/-! ## What a call can write

A call that fails writes nothing. What remains is compared with the three kinds of change. -/

/-- The three kinds of change: a pending request is dropped, set or carried out. -/
inductive Change (selection next : NativeSelection) : SelectionCall → Prop
  | drop (action : SelectionAction) (release : NativeReleaseId)
      (hactive : selection.active = some release)
      (hnext : next = { selection with generation := selection.generation + 1, pending := none }) :
      Change selection next (.request action release)
  | ask (action : SelectionAction) (release : NativeReleaseId)
      (hactive : selection.active ≠ some release)
      (hprevious : action = .rollback → selection.previous = some release)
      (hnext : next = { selection with
        generation := selection.generation + 1, pending := some ⟨action, release⟩ }) :
      Change selection next (.request action release)
  | activate (request : PendingRelease) (hpending : selection.pending = some request)
      (hnext : next = ⟨selection.generation + 1, some request.release, selection.active, none⟩) :
      Change selection next (.activate request.release)

variable {selection next : NativeSelection} {call : SelectionCall} {calls : List SelectionCall}

theorem nextGeneration_eq_ok {generation : ℕ} (h : nextGeneration selection = .ok generation) :
    selection.generation < maxSafeInteger ∧ generation = selection.generation + 1 := by
  rw [nextGeneration] at h
  split at h
  · exact nomatch h
  · exact ⟨by omega, (Except.ok.inj h).symm⟩

/-- A written selection has the next generation. -/
theorem write_of_bind {f : ℕ → NativeSelection}
    (h : (do let generation ← nextGeneration selection
             pure (.write (f generation)) : Except String NativeSelectionDecision) =
      .ok (.write next)) :
    selection.generation < maxSafeInteger ∧ next = f (selection.generation + 1) := by
  generalize hgen : nextGeneration selection = answer at h
  rcases answer with message | generation
  · exact nomatch h
  · obtain ⟨hlt, rfl⟩ := nextGeneration_eq_ok hgen
    exact ⟨hlt, (NativeSelectionDecision.write.inj (Except.ok.inj h)).symm⟩

theorem change_of_write (h : call.decide selection = .ok (.write next)) :
    selection.generation < maxSafeInteger ∧ Change selection next call := by
  rcases call with ⟨action, release⟩ | release
  · simp only [SelectionCall.decide, requestNativeSelection] at h
    split_ifs at h with hrefused hsame hactive hpending
    · exact nomatch h
    · exact nomatch h
    · obtain ⟨hlt, hnext⟩ := write_of_bind h
      exact ⟨hlt, .drop action release hactive hnext⟩
    · exact nomatch h
    · obtain ⟨hlt, hnext⟩ := write_of_bind h
      refine ⟨hlt, .ask action release hactive (fun hroll ↦ ?_) hnext⟩
      by_contra hne
      exact hrefused ⟨hroll, hne⟩
  · simp only [SelectionCall.decide, activateNativeSelection] at h
    split_ifs at h with hsame hother
    · exact nomatch h
    · exact nomatch h
    · obtain ⟨hlt, hnext⟩ := write_of_bind h
      obtain ⟨request, hpending, rfl⟩ := Option.map_eq_some_iff.mp (not_not.mp hother)
      exact ⟨hlt, .activate request hpending hnext⟩

/-- A call writes or leaves the selection as it is. -/
theorem advance_cases (selection : NativeSelection) (call : SelectionCall) :
    advance selection call = selection ∨
      call.decide selection = .ok (.write (advance selection call)) := by
  rw [advance]
  split
  · exact .inr ‹_›
  · exact .inl rfl

theorem Change.generation_lt (h : Change selection next call) :
    selection.generation < next.generation := by
  rcases h with ⟨_, _, _, rfl⟩ | ⟨_, _, _, _, rfl⟩ | ⟨_, _, rfl⟩ <;> exact Nat.lt_succ_self _

/-- The active release changes by carrying the pending request out, and in no other way. -/
theorem Change.active_eq (h : Change selection next call) :
    next.active = selection.active ∧ next.previous = selection.previous ∨
      ∃ request, call = .activate request.release ∧ selection.pending = some request ∧
        next.active = some request.release ∧ next.previous = selection.active := by
  rcases h with ⟨_, _, _, rfl⟩ | ⟨_, _, _, _, rfl⟩ | ⟨request, hpending, rfl⟩
  · exact .inl ⟨rfl, rfl⟩
  · exact .inl ⟨rfl, rfl⟩
  · exact .inr ⟨request, rfl, hpending, rfl, rfl⟩

/-! ## Coherence -/

/-- What the reader asks of a selection. -/
structure Coherent (selection : NativeSelection) : Prop where
  first : selection.active = none → selection.previous = none
  moved : ∀ release, selection.active = some release → selection.previous ≠ some release
  other : ∀ request, selection.pending = some request → selection.active ≠ some request.release
  back : ∀ request, selection.pending = some request → request.action = .rollback →
    selection.previous = some request.release
  safe : selection.generation ≤ maxSafeInteger

theorem coherent_empty : Coherent emptyNativeSelection :=
  ⟨fun _ ↦ rfl, nofun, nofun, nofun, Nat.zero_le _⟩

theorem Coherent.change (h : Coherent selection) (hlt : selection.generation < maxSafeInteger)
    (hchange : Change selection next call) : Coherent next := by
  rcases hchange with
    ⟨_, _, _, rfl⟩ | ⟨action, release, hactive, hprevious, rfl⟩ | ⟨request, hpending, rfl⟩
  · exact ⟨h.first, h.moved, nofun, nofun, hlt⟩
  · refine ⟨h.first, h.moved, ?_, ?_, hlt⟩
    · rintro _ ⟨⟩
      exact hactive
    · rintro _ ⟨⟩
      exact hprevious
  · refine ⟨nofun, ?_, nofun, nofun, hlt⟩
    rintro _ ⟨⟩
    exact h.other request hpending

theorem Coherent.advance (h : Coherent selection) (call : SelectionCall) :
    Coherent (advance selection call) := by
  rcases advance_cases selection call with heq | hwrite
  · exact heq.symm ▸ h
  · obtain ⟨hlt, hchange⟩ := change_of_write hwrite
    exact h.change hlt hchange

theorem coherent_after (calls : List SelectionCall) : Coherent (after calls) := by
  induction calls using List.reverseRecOn with
  | nil => exact coherent_empty
  | append_singleton calls call ih =>
    rw [after_concat]
    exact ih.advance call

theorem Coherent.not_incoherent (h : Coherent selection) :
    incoherent selection.active selection.previous selection.pending = false := by
  have hmoved : (selection.active.isSome && selection.active = selection.previous) = false := by
    rcases hactive : selection.active with _ | release
    · rfl
    · simpa using (h.moved release hactive).symm
  have hfirst : (selection.active.isNone && selection.previous.isSome) = false := by
    rcases hactive : selection.active with _ | release
    · simp [h.first hactive]
    · rfl
  rw [incoherent, hfirst, hmoved]
  rcases hpending : selection.pending with _ | request
  · rfl
  · have hother := h.other request hpending
    by_cases hroll : request.action = .rollback
    · simp [hother, h.back request hpending hroll]
    · simp [hother, hroll]

/-! ## Reading back -/

theorem optionalReleaseId_releaseJson (release : Option NativeReleaseId) :
    optionalReleaseId (some (releaseJson release)) = .ok release := by
  rcases release with _ | release
  · rfl
  · have hread : nativeReleaseId (some (.string release.val)) = .ok release := dif_pos release.2
    rw [releaseJson, optionalReleaseId, if_neg nofun, hread]
    rfl

theorem pendingRelease_pendingJson (pending : Option PendingRelease) :
    pendingRelease (some (pendingJson pending)) = .ok pending := by
  rcases pending with _ | ⟨action, release⟩
  · rfl
  · have hread : nativeReleaseId (some (.string release.val)) = .ok release := dif_pos release.2
    have haction : selectionAction (some action.json) = .ok action := by
      rcases action with _ | _ <;> rfl
    rw [pendingJson, pendingRelease, if_neg nofun]
    change (do
      let action ← selectionAction (some action.json)
      let release ← nativeReleaseId (some (.string release.val))
      pure (some ⟨action, release⟩) : Except String (Option PendingRelease)) = _
    rw [haction, hread]
    rfl

theorem nonnegative_number {n : ℕ} (h : n ≤ maxSafeInteger) :
    nonnegative (some (.number n)) = .ok n := by
  simp [nonnegative, Json.number?, h]

/-- **A coherent selection is read back as it was written.** -/
theorem Coherent.decode (h : Coherent selection) :
    decodeNativeSelection (some selection.json) = .ok selection := by
  rw [decodeNativeSelection, NativeSelection.json]
  change (do
    let active ← optionalReleaseId (some (releaseJson selection.active))
    let previous ← optionalReleaseId (some (releaseJson selection.previous))
    let pending ← pendingRelease (some (pendingJson selection.pending))
    if incoherent active previous pending then
      throw "Incoherent release selection"
    let generation ← nonnegative (some (.number selection.generation))
    pure ⟨generation, active, previous, pending⟩ : Except String NativeSelection) = _
  rw [optionalReleaseId_releaseJson, optionalReleaseId_releaseJson, pendingRelease_pendingJson,
    nonnegative_number h.safe]
  change (if incoherent selection.active selection.previous selection.pending = true then _
    else _) = _
  rw [h.not_incoherent]
  rfl

/-! ## What was active before -/

/-- `release` was the active release of a run until the present one took its place. -/
def FormerlyActive (calls : List SelectionCall) (release : NativeReleaseId) : Prop :=
  ∃ earlier call later, calls = earlier ++ call :: later ∧
    (after earlier).active = some release ∧ (after calls).active ≠ some release ∧
    ∀ n, (after (earlier ++ call :: later.take n)).active = (after calls).active

/-- A call that leaves the active release as it is. -/
theorem FormerlyActive.concat {release : NativeReleaseId} (h : FormerlyActive calls release)
    (hsame : (after (calls ++ [call])).active = (after calls).active) :
    FormerlyActive (calls ++ [call]) release := by
  obtain ⟨earlier, first, later, rfl, hwas, hnow, hsince⟩ := h
  refine ⟨earlier, first, later ++ [call], by simp, hwas, hsame ▸ hnow, fun n ↦ ?_⟩
  rcases Nat.lt_or_ge later.length n with hlt | hle
  · rw [List.take_of_length_le (by simpa using Nat.succ_le_of_lt hlt)]
    simp
  · rw [List.take_append_of_le_length hle, hsince n, hsame]

/-- The previous release of every state is the one that was active before. -/
theorem formerlyActive_of_previous {release : NativeReleaseId}
    (h : (after calls).previous = some release) : FormerlyActive calls release := by
  induction calls using List.reverseRecOn with
  | nil => exact nomatch h
  | append_singleton calls call ih =>
    have hmoved := (coherent_after (calls ++ [call])).moved release
    rcases advance_cases (after calls) call with hsame | hwrite
    · rw [← after_concat] at hsame
      rw [hsame] at h
      exact (ih h).concat (congrArg NativeSelection.active hsame)
    · rw [← after_concat] at hwrite
      rcases (change_of_write hwrite).2.active_eq with ⟨hactive, hprevious⟩ |
          ⟨request, -, -, -, hprevious⟩
      · exact (ih (hprevious ▸ h)).concat hactive
      · -- the active release changes here, and it was `release` until now
        refine ⟨calls, call, [], rfl, hprevious ▸ h, fun hnow ↦ hmoved hnow h, fun n ↦ ?_⟩
        rw [List.take_nil]

/-- **What a run writes can be read back, and a rollback goes back.** -/
theorem written_selection (calls : List SelectionCall) (call : SelectionCall)
    (next : NativeSelection) (h : call.decide (after calls) = .ok (.write next)) :
    decodeNativeSelection (some next.json) = .ok next ∧
      (after calls).generation < next.generation ∧
      (next.active ≠ (after calls).active → ∃ request, call = .activate request.release ∧
        (after calls).pending = some request ∧ next.active = some request.release ∧
        next.previous = (after calls).active) ∧
      ∀ release, (after calls).pending = some ⟨.rollback, release⟩ →
        FormerlyActive calls release ∧
        (next.active ≠ (after calls).active → next.active = some release) := by
  obtain ⟨hlt, hchange⟩ := change_of_write h
  have hcoherent := coherent_after calls
  have hmoves : next.active ≠ (after calls).active → ∃ request, call = .activate request.release ∧
      (after calls).pending = some request ∧ next.active = some request.release ∧
      next.previous = (after calls).active := by
    intro hne
    exact hchange.active_eq.resolve_left fun hsame ↦ hne hsame.1
  refine ⟨(hcoherent.change hlt hchange).decode, hchange.generation_lt, hmoves, ?_⟩
  intro release hpending
  -- A rollback was requested for the release before the active one, which had been active.
  refine ⟨formerlyActive_of_previous (hcoherent.back _ hpending rfl), fun hne ↦ ?_⟩
  obtain ⟨request, -, hsame, hactive, -⟩ := hmoves hne
  obtain rfl : request = ⟨.rollback, release⟩ := Option.some.inj (hsame.symm.trans hpending)
  exact hactive

/-- The release whose digest repeats one character. -/
def repeated (c : Char) (h : isDigestCharacter c) : NativeReleaseId :=
  ⟨String.ofList (List.replicate 64 c), by
    rw [isDigest, String.toList_ofList, List.length_replicate, List.all_replicate, h]
    rfl⟩

theorem written_selection_setup :
    decodeNativeSelection (some (NativeSelection.json ⟨2, some (repeated 'a' rfl), none, none⟩)) =
      .ok ⟨2, some (repeated 'a' rfl), none, none⟩ :=
  (written_selection [.request .setup (repeated 'a' rfl)] (.activate (repeated 'a' rfl)) _
    (by simp [SelectionCall.decide, after, advance, requestNativeSelection, emptyNativeSelection,
      activateNativeSelection, nextGeneration, maxSafeInteger, pure, Except.pure, bind,
      Except.bind])).1

end RatThings.NativeRelease
