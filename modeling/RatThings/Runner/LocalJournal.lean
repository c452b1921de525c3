import Mathlib.Data.List.Basic
import Mathlib.Logic.Function.Basic

/-!
# The journal of local Sessions

The snapshots of all local Sessions are stored through one chain of promises: each save is appended
to the chain, and runs when the saves before it have been stored. Starts, observations and
recoveries wait for the chain as it is then. A save that fails rejects its link, and every link that
is appended to a rejected one is rejected with it and never runs.

When the saves run does not matter to what becomes of them, since they run one after another in the
order of their calls. So a call is modelled with what its own store operations will answer.

## What a sequence of calls is

A save takes its place in the chain when it is called, and the sequence has it there. A start, an
observation or a recovery stands where it waits for the chain for the last time: a save that fails
while a start is in flight comes before this start, and the start fails with it, whichever Session
the save is of. A start waits several times, for its recovery, for its runtime and for the snapshot
of its Turn. Once the chain is rejected it stays rejected, so the last of these waits fails whenever
an earlier one does, and one wait stands for all of them.

Not every call waits. With a live runtime there is nothing to recover, and a start that finds an
attempt at its Turn returns, as one that finds no free slot, or a worker that has not confirmed its
shutdown, is refused before it looks at the chain.

## What comes out

`Execution.writes_step` and `Execution.result_step` say what one call does to the chain and what the
chain does to the call. From them, `Execution.undisturbed_of_rejected` and
`Execution.undisturbed_iff` go through a sequence behind a rejected and behind a fulfilled chain.
The result is `independent_iff`: Sessions are independent exactly when nothing of another Session
that waits follows a failed save.
-/

namespace RatThings.LocalSessionExecution

variable {Snapshot : Type}

/-- What the store answers to an operation that reads a record and then writes it. -/
inductive StoreAnswer : Type
  | succeeds
  | getFails
  | putFails
deriving DecidableEq, Repr

/-- Why an operation fails: a save of this Session has failed, or its own steps do. -/
inductive Failure : Type
  | journal (session : String)
  | own
deriving DecidableEq, Repr

/-- What a start finds before it waits for anything: an attempt at its Turn, a worker that has not
confirmed its shutdown, no free slot, or none of these. -/
inductive StartCheck : Type
  | attempted
  | stopping
  | full
  | passed
deriving DecidableEq, Repr

structure Execution (Snapshot : Type) where
  snapshots : String → Option Snapshot
  /-- The last link of the chain. A rejected one carries the failure of a save of this Session. -/
  writes : Except String Unit
  /-- The versions of the record of each Session. -/
  records : String → List Snapshot

namespace Execution

/-- The execution of a process that has just started, with the records it finds. -/
def opened (records : String → List Snapshot) : Execution Snapshot where
  snapshots := fun _ ↦ none
  writes := .ok ()
  records := records

def remember (execution : Execution Snapshot) (session : String) (snapshot : Snapshot) :
    Execution Snapshot :=
  { execution with snapshots := Function.update execution.snapshots session (some snapshot) }

def put (execution : Execution Snapshot) (session : String) (snapshot : Snapshot) :
    Execution Snapshot :=
  { execution with records :=
      Function.update execution.records session (execution.records session ++ [snapshot]) }

def awaitWrites (execution : Execution Snapshot) : Except Failure Unit :=
  execution.writes.mapError Failure.journal

def saveSnapshot (execution : Execution Snapshot) (session : String) (snapshot : Snapshot)
    (answer : StoreAnswer) : Execution Snapshot × Except Failure Unit :=
  let execution := execution.remember session snapshot
  match execution.writes with
  | .error failed => (execution, .error (.journal failed))
  | .ok () =>
    match answer with
    | .succeeds => (execution.put session snapshot, .ok ())
    | _ => ({ execution with writes := .error session }, .error .own)

/-- The snapshot of a Session. Without a live runtime it is read, and stored again if the runtime
had not ended everything. -/
def recoverState (recoverStopped : Snapshot → Bool × Snapshot) (execution : Execution Snapshot)
    (session : String) (live : Bool) (answer : StoreAnswer) :
    Execution Snapshot × Except Failure (Option Snapshot) :=
  if live then (execution, .ok (execution.snapshots session))
  else match execution.awaitWrites with
    | .error failure => (execution, .error failure)
    | .ok () =>
      if answer = .getFails then (execution, .error .own)
      else match (execution.records session).getLast? with
        | none => (execution, .ok none)
        | some current =>
          let (persist, snapshot) := recoverStopped current
          if persist then
            if answer = .putFails then (execution, .error .own)
            else ((execution.put session snapshot).remember session snapshot, .ok (some snapshot))
          else (execution.remember session snapshot, .ok (some snapshot))

/-- The state of a Turn, which needs the snapshot and the attempt. -/
def observe (recoverStopped : Snapshot → Bool × Snapshot) (execution : Execution Snapshot)
    (session : String) (live : Bool) (answer : StoreAnswer) (attempted : Bool) :
    Execution Snapshot × Except Failure Unit :=
  match execution.recoverState recoverStopped session live answer with
  | (execution, .error failure) => (execution, .error failure)
  | (execution, .ok _) => (execution, if attempted then .ok () else .error .own)

/-- A start behind its recovery. An attempt at the Turn is not made again. Otherwise the runtime is
there when the chain is fulfilled; if it is not, the Session is closed and the Turn has failed. -/
def startTurn (execution : Execution Snapshot) (check : StartCheck) (started : Bool) :
    Execution Snapshot × Except Failure Unit :=
  match check with
  | .attempted => (execution, .ok ())
  -- Both are answered with 503, and the Turn stays queued.
  | .stopping | .full => (execution, .error .own)
  | .passed =>
    match execution.awaitWrites with
    | .error failure => (execution, .error failure)
    | .ok () => (execution, if started then .ok () else .error .own)

end Execution

/-- A call, with the answers of the world to its own steps, where it waits for the chain for the
last time. The start of a Turn without a live runtime is a recovery and then a start. -/
inductive Call (Snapshot : Type) : Type
  | save (session : String) (snapshot : Snapshot) (answer : StoreAnswer)
  | recover (session : String) (live : Bool) (answer : StoreAnswer)
  | observe (session : String) (live : Bool) (answer : StoreAnswer) (attempted : Bool)
  | start (session : String) (check : StartCheck) (started : Bool)
deriving DecidableEq, Repr

namespace Call

def session : Call Snapshot → String
  | save session _ _ => session
  | recover session _ _ => session
  | observe session _ _ _ => session
  | start session _ _ => session

/-- The call waits for the chain. -/
def waits : Call Snapshot → Bool
  | save _ _ _ => true
  | recover _ live _ => !live
  | observe _ live _ _ => !live
  | start _ check _ => check = .passed

/-- A save whose own store operations succeed. -/
def saves : Call Snapshot → Bool
  | save _ _ answer => answer = .succeeds
  | _ => false

end Call

section

variable (recoverStopped : Snapshot → Bool × Snapshot)

def Execution.step (execution : Execution Snapshot) :
    Call Snapshot → Execution Snapshot × Except Failure Unit
  | .save session snapshot answer => execution.saveSnapshot session snapshot answer
  | .recover session live answer =>
    let (execution, result) := execution.recoverState recoverStopped session live answer
    (execution, result.map fun _ ↦ ())
  | .observe session live answer attempted =>
    execution.observe recoverStopped session live answer attempted
  | .start _ check started => execution.startTurn check started

/-- The calls in their order, each with its result. -/
def Execution.run (execution : Execution Snapshot) :
    List (Call Snapshot) → Execution Snapshot × List (Call Snapshot × Except Failure Unit)
  | [] => (execution, [])
  | call :: calls =>
    let (next, result) := execution.step recoverStopped call
    let (last, results) := next.run calls
    (last, (call, result) :: results)

end

/-! ## One call -/

section

variable (recoverStopped : Snapshot → Bool × Snapshot) {execution : Execution Snapshot}

theorem Execution.records_put (session of : String) (snapshot : Snapshot) :
    execution.records of <+: (execution.put session snapshot).records of := by
  by_cases h : of = session
  · subst h
    simp only [put, Function.update_self]
    exact List.prefix_append _ _
  · simp only [put, Function.update_of_ne h]
    exact List.prefix_rfl

/-- A recovery leaves the chain and only adds versions. It fails with a save exactly when it waits
for a rejected chain. -/
theorem Execution.recoverState_spec (session : String) (live : Bool) (answer : StoreAnswer) :
    let recovered := execution.recoverState recoverStopped session live answer
    recovered.1.writes = execution.writes ∧
      (∀ of, execution.records of <+: recovered.1.records of) ∧
      ∀ failed, recovered.2 = .error (.journal failed) ↔
        live = false ∧ execution.writes = .error failed := by
  intro recovered
  rcases live with _ | _
  · rcases hwrites : execution.writes with failed | _
    · have hrecovered : recovered = (execution, .error (.journal failed)) := by
        simp only [recovered, recoverState, awaitWrites, hwrites]
        rfl
      rw [hrecovered]
      refine ⟨hwrites, fun of ↦ List.prefix_rfl, fun other ↦ ?_⟩
      simp
    · have hawait : execution.awaitWrites = .ok () := by
        rw [awaitWrites, hwrites]
        rfl
      -- No branch behind the wait touches the chain, and one of them stores a version.
      simp only [recovered, recoverState, hawait, Bool.false_eq_true, if_false]
      by_cases hget : answer = .getFails
      · rw [if_pos hget]
        exact ⟨hwrites, fun of ↦ List.prefix_rfl, by simp⟩
      rw [if_neg hget]
      rcases (execution.records session).getLast? with _ | current
      · exact ⟨hwrites, fun of ↦ List.prefix_rfl, by simp⟩
      dsimp only
      by_cases hpersist : (recoverStopped current).1 = true
      · rw [if_pos hpersist]
        by_cases hput : answer = .putFails
        · rw [if_pos hput]
          exact ⟨hwrites, fun of ↦ List.prefix_rfl, by simp⟩
        · rw [if_neg hput]
          exact ⟨hwrites, fun of ↦ execution.records_put session of _, by simp⟩
      · rw [if_neg hpersist]
        exact ⟨hwrites, fun of ↦ List.prefix_rfl, by simp⟩
  · exact ⟨rfl, fun of ↦ List.prefix_rfl, by simp [recovered, recoverState]⟩

theorem Execution.saveSnapshot_of_rejected {failed : String} (h : execution.writes = .error failed)
    (session : String) (snapshot : Snapshot) (answer : StoreAnswer) :
    execution.saveSnapshot session snapshot answer =
      (execution.remember session snapshot, .error (.journal failed)) := by
  simp only [saveSnapshot, remember, h]

theorem Execution.saveSnapshot_succeeds (h : execution.writes = .ok ()) (session : String)
    (snapshot : Snapshot) :
    execution.saveSnapshot session snapshot .succeeds =
      ((execution.remember session snapshot).put session snapshot, .ok ()) := by
  simp only [saveSnapshot, remember, h]

theorem Execution.saveSnapshot_fails (h : execution.writes = .ok ()) (session : String)
    (snapshot : Snapshot) {answer : StoreAnswer} (hanswer : answer ≠ .succeeds) :
    execution.saveSnapshot session snapshot answer =
      ({ execution.remember session snapshot with writes := .error session }, .error .own) := by
  rcases answer with _ | _ | _
  · exact absurd rfl hanswer
  · simp only [saveSnapshot, remember, h]
  · simp only [saveSnapshot, remember, h]

/-- A start leaves the journal as it is. -/
theorem Execution.startTurn_fst (check : StartCheck) (started : Bool) :
    (execution.startTurn check started).1 = execution := by
  rcases check with _ | _ | _ | _
  · rfl
  · rfl
  · rfl
  · rw [startTurn]
    rcases execution.awaitWrites with _ | _
    · rfl
    · rfl

theorem Execution.startTurn_rejected (check : StartCheck) (started : Bool) (failed : String) :
    (execution.startTurn check started).2 = .error (.journal failed) ↔
      check = .passed ∧ execution.writes = .error failed := by
  rcases check with _ | _ | _ | _
  · simp [startTurn]
  · simp [startTurn]
  · simp [startTurn]
  · rw [startTurn, awaitWrites]
    rcases execution.writes with other | _
    · simp [Except.mapError]
    · rcases started with _ | _
      · simp [Except.mapError]
      · simp [Except.mapError]

namespace Call

/-- A save whose own store operations fail. -/
def breaks : Call Snapshot → Bool
  | save _ _ answer => answer ≠ .succeeds
  | _ => false

/-- A call that no failed save of the Session disturbs, other than its own. -/
def Harmless (session : String) (call : Call Snapshot) : Prop :=
  call.waits = true → call.session = session ∧ call.saves = false

theorem waits_of_saves {call : Call Snapshot} (h : call.saves = true) : call.waits = true := by
  rcases call with _ | _ | _ | _
  · rfl
  · exact absurd h (by simp [saves])
  · exact absurd h (by simp [saves])
  · exact absurd h (by simp [saves])

theorem waits_of_breaks {call : Call Snapshot} (h : call.breaks = true) : call.waits = true := by
  rcases call with _ | _ | _ | _
  · rfl
  · exact absurd h (by simp [breaks])
  · exact absurd h (by simp [breaks])
  · exact absurd h (by simp [breaks])

end Call

/-- Only a save that fails on a fulfilled chain rejects it. -/
theorem Execution.writes_step (call : Call Snapshot) :
    (execution.step recoverStopped call).1.writes =
      if execution.writes = .ok () ∧ call.breaks = true then .error call.session
      else execution.writes := by
  rcases call with ⟨session, snapshot, answer⟩ | ⟨session, live, answer⟩ |
    ⟨session, live, answer, attempted⟩ | ⟨session, check, started⟩
  · rcases hwrites : execution.writes with failed | _
    · rw [step, saveSnapshot_of_rejected hwrites, if_neg (by simp)]
      exact hwrites
    · by_cases hanswer : answer = .succeeds
      · rw [step, hanswer, saveSnapshot_succeeds hwrites, if_neg (by simp [Call.breaks])]
        exact hwrites
      · rw [step, saveSnapshot_fails hwrites _ _ hanswer,
          if_pos ⟨rfl, by simp [Call.breaks, hanswer]⟩]
        rfl
  · rw [if_neg (by simp [Call.breaks])]
    exact (recoverState_spec recoverStopped session live answer).1
  · have hrecovered := (execution.recoverState_spec recoverStopped session live answer).1
    rw [if_neg (by simp [Call.breaks]), step, observe]
    generalize execution.recoverState recoverStopped session live answer = recovered at hrecovered
    obtain ⟨after, _ | _⟩ := recovered
    · exact hrecovered
    · exact hrecovered
  · rw [if_neg (by simp [Call.breaks]), step, startTurn_fst]

/-- A call fails with a save exactly when it waits for a rejected chain. -/
theorem Execution.result_step (call : Call Snapshot) (failed : String) :
    (execution.step recoverStopped call).2 = .error (.journal failed) ↔
      call.waits = true ∧ execution.writes = .error failed := by
  rcases call with ⟨session, snapshot, answer⟩ | ⟨session, live, answer⟩ |
    ⟨session, live, answer, attempted⟩ | ⟨session, check, started⟩
  · rcases hwrites : execution.writes with other | _
    · rw [step, saveSnapshot_of_rejected hwrites]
      simp [Call.waits]
    · by_cases hanswer : answer = .succeeds
      · rw [step, hanswer, saveSnapshot_succeeds hwrites]
        simp
      · rw [step, saveSnapshot_fails hwrites _ _ hanswer]
        simp
  · have hrecovered := (execution.recoverState_spec recoverStopped session live answer).2.2 failed
    rw [step]
    generalize execution.recoverState recoverStopped session live answer = recovered at hrecovered
    obtain ⟨after, _ | _⟩ := recovered
    · simpa [Call.waits, Except.map] using hrecovered
    · simpa [Call.waits, Except.map] using hrecovered
  · have hrecovered := (execution.recoverState_spec recoverStopped session live answer).2.2 failed
    rw [step, observe]
    generalize execution.recoverState recoverStopped session live answer = recovered at hrecovered
    obtain ⟨after, _ | _⟩ := recovered
    · simpa [Call.waits] using hrecovered
    · rcases attempted with _ | _
      · simpa [Call.waits] using hrecovered
      · simpa [Call.waits] using hrecovered
  · rw [step, startTurn_rejected]
    simp [Call.waits]

theorem Execution.records_step (call : Call Snapshot) (of : String) :
    execution.records of <+: (execution.step recoverStopped call).1.records of := by
  rcases call with ⟨session, snapshot, answer⟩ | ⟨session, live, answer⟩ |
    ⟨session, live, answer, attempted⟩ | ⟨session, check, started⟩
  · rcases hwrites : execution.writes with failed | _
    · rw [step, saveSnapshot_of_rejected hwrites]
      exact List.prefix_rfl
    · by_cases hanswer : answer = .succeeds
      · rw [step, hanswer, saveSnapshot_succeeds hwrites]
        exact (execution.remember session snapshot).records_put session of snapshot
      · rw [step, saveSnapshot_fails hwrites _ _ hanswer]
        exact List.prefix_rfl
  · exact (recoverState_spec recoverStopped session live answer).2.1 of
  · have hrecovered := (execution.recoverState_spec recoverStopped session live answer).2.1 of
    rw [step, observe]
    generalize execution.recoverState recoverStopped session live answer = recovered at hrecovered
    obtain ⟨after, _ | _⟩ := recovered
    · exact hrecovered
    · exact hrecovered
  · simp only [step, startTurn_fst, List.prefix_rfl]

/-! ## Sequences of calls -/

/-- The snapshot of a save of the Session whose own store operations succeed. -/
def Call.stored (session : String) : Call Snapshot → Option Snapshot
  | save of snapshot .succeeds => if of = session then some snapshot else none
  | _ => none

/-- Failures stay with their own Session: a save that the store accepts is stored, in call order for
each Session, and no call of another Session fails with a failed save. -/
structure Independent (recoverStopped : Snapshot → Bool × Snapshot) (execution : Execution Snapshot)
    (calls : List (Call Snapshot)) : Prop where
  saved : ∀ answered ∈ (execution.run recoverStopped calls).2,
    answered.1.saves = true → answered.2 = .ok ()
  in_order : ∀ session, ∃ versions,
    (execution.run recoverStopped calls).1.records session = execution.records session ++ versions ∧
      (calls.filterMap (Call.stored session)).Sublist versions
  own : ∀ answered ∈ (execution.run recoverStopped calls).2, ∀ failed,
    answered.2 = .error (.journal failed) → failed = answered.1.session

/-- Behind a failed save come only calls that it does not disturb. -/
def FailsLast (calls : List (Call Snapshot)) : Prop :=
  calls.Pairwise fun call later ↦ call.breaks = true → later.Harmless call.session

theorem Call.stored_of_not_saves {call : Call Snapshot} (h : call.saves = false)
    (session : String) :
    call.stored session = none := by
  rcases call with ⟨of, snapshot, _ | _ | _⟩ | _ | _ | _
  · exact absurd h (by simp [saves])
  all_goals rfl

/-- Of a save that the store accepts, on a fulfilled chain: it is the next version of its record. -/
theorem Execution.step_of_saves (h : execution.writes = .ok ()) {call : Call Snapshot}
    (hsaves : call.saves = true) :
    (execution.step recoverStopped call).2 = .ok () ∧
      ∀ session, (execution.step recoverStopped call).1.records session =
        execution.records session ++ (call.stored session).toList := by
  rcases call with ⟨of, snapshot, answer⟩ | _ | _ | _
  · obtain rfl : answer = .succeeds := by simpa [Call.saves] using hsaves
    rw [step, saveSnapshot_succeeds h]
    refine ⟨rfl, fun session ↦ ?_⟩
    by_cases hof : of = session
    · subst hof
      simp [put, remember, Call.stored]
    · simp [put, remember, Call.stored, hof, Function.update_of_ne (Ne.symm hof)]
  all_goals exact absurd hsaves (by simp [Call.saves])

/-- What independence asks of one answered call. -/
def Undisturbed (answered : Call Snapshot × Except Failure Unit) : Prop :=
  (answered.1.saves = true → answered.2 = .ok ()) ∧
    ∀ failed, answered.2 = .error (.journal failed) → failed = answered.1.session

/-- When every save that the store accepts succeeds, each record gets them in their order. -/
theorem Execution.stored_in_order (calls : List (Call Snapshot)) (execution : Execution Snapshot)
    (h : ∀ answered ∈ (execution.run recoverStopped calls).2,
      answered.1.saves = true → answered.2 = .ok ()) (session : String) :
    ∃ versions, (execution.run recoverStopped calls).1.records session =
        execution.records session ++ versions ∧
      (calls.filterMap (Call.stored session)).Sublist versions := by
  induction calls generalizing execution with
  | nil => exact ⟨[], (List.append_nil _).symm, List.Sublist.slnil⟩
  | cons call calls ih =>
    rw [run, List.forall_mem_cons] at h
    obtain ⟨versions, hversions, hsublist⟩ := ih _ h.2
    rw [run, List.filterMap_cons]
    dsimp only
    rw [hversions]
    rcases hsaves : call.saves with _ | _
    · obtain ⟨added, hadded⟩ := execution.records_step recoverStopped call session
      refine ⟨added ++ versions, by rw [← hadded, List.append_assoc], ?_⟩
      rw [Call.stored_of_not_saves hsaves]
      exact hsublist.trans (List.sublist_append_right added versions)
    · -- The save has succeeded, so it has not waited for a rejected chain.
      have hwrites : execution.writes = .ok () := by
        rcases hwrites : execution.writes with failed | _
        · have hrejected := (execution.result_step recoverStopped call failed).2
            ⟨Call.waits_of_saves hsaves, hwrites⟩
          rw [h.1 hsaves] at hrejected
          exact absurd hrejected nofun
        · rfl
      have hrecords := (step_of_saves recoverStopped hwrites hsaves).2 session
      refine ⟨(call.stored session).toList ++ versions, by rw [hrecords, List.append_assoc], ?_⟩
      rcases call.stored session with _ | snapshot
      · exact hsublist
      · exact hsublist.cons_cons snapshot

theorem Execution.undisturbed_of_rejected {failed : String} (calls : List (Call Snapshot))
    (execution : Execution Snapshot) (h : execution.writes = .error failed) :
    (∀ answered ∈ (execution.run recoverStopped calls).2, Undisturbed answered) ↔
      ∀ call ∈ calls, call.Harmless failed := by
  induction calls generalizing execution with
  | nil => exact iff_of_true nofun nofun
  | cons call calls ih =>
    have hnext : (execution.step recoverStopped call).1.writes = .error failed := by
      rw [writes_step, if_neg (by simp [h]), h]
    have hresult := execution.result_step recoverStopped call
    rw [run, List.forall_mem_cons, List.forall_mem_cons, ih _ hnext]
    refine and_congr_left fun _ ↦ ⟨fun hcall hwaits ↦ ?_, fun hcall ↦ ⟨fun hsaves ↦ ?_, ?_⟩⟩
    · have hrejected := (hresult failed).2 ⟨hwaits, h⟩
      refine ⟨(hcall.2 failed hrejected).symm, Bool.eq_false_iff.2 fun hsaves ↦ ?_⟩
      exact absurd (hrejected.symm.trans (hcall.1 hsaves)) nofun
    · exact absurd hsaves (by simp [(hcall (Call.waits_of_saves hsaves)).2])
    · intro other hother
      obtain ⟨hwaits, hother⟩ := (hresult other).1 hother
      obtain rfl : failed = other := by simpa [h] using hother
      exact (hcall hwaits).1.symm

theorem Execution.undisturbed_iff (calls : List (Call Snapshot)) (execution : Execution Snapshot)
    (h : execution.writes = .ok ()) :
    (∀ answered ∈ (execution.run recoverStopped calls).2, Undisturbed answered) ↔
      FailsLast calls := by
  induction calls generalizing execution with
  | nil => exact iff_of_true nofun List.Pairwise.nil
  | cons call calls ih =>
    have hcall : Undisturbed (call, (execution.step recoverStopped call).2) := by
      refine ⟨fun hsaves ↦ (step_of_saves recoverStopped h hsaves).1, fun failed hfailed ↦ ?_⟩
      have hrejected := ((execution.result_step recoverStopped call failed).1 hfailed).2
      rw [h] at hrejected
      exact absurd hrejected nofun
    rw [run, List.forall_mem_cons, FailsLast, List.pairwise_cons]
    rcases hbreaks : call.breaks with _ | _
    · have hnext : (execution.step recoverStopped call).1.writes = .ok () := by
        rw [writes_step, if_neg (by simp [hbreaks]), h]
      rw [ih _ hnext]
      exact ⟨fun ⟨_, hcalls⟩ ↦ ⟨nofun, hcalls⟩, fun ⟨_, hcalls⟩ ↦ ⟨hcall, hcalls⟩⟩
    · have hnext : (execution.step recoverStopped call).1.writes = .error call.session := by
        rw [writes_step, if_pos ⟨h, hbreaks⟩]
      rw [undisturbed_of_rejected recoverStopped calls _ hnext]
      refine ⟨fun ⟨_, hcalls⟩ ↦ ⟨fun later hlater _ ↦ hcalls later hlater, ?_⟩,
        fun ⟨hcalls, _⟩ ↦ ⟨hcall, fun later hlater ↦ hcalls later hlater rfl⟩⟩
      -- All that follows is of one Session and saves nothing, so it is harmless pairwise.
      refine List.Pairwise.imp_of_mem ?_ (List.pairwise_of_forall fun _ _ ↦ trivial)
      intro first later hfirst hlater _ hfirstBreaks
      rw [(hcalls first hfirst (Call.waits_of_breaks hfirstBreaks)).1]
      exact hcalls later hlater

/-- Sessions are independent exactly when nothing that waits for the chain, of another Session or a
save that the store would accept, follows a failed save. -/
theorem independent_iff (recoverStopped : Snapshot → Bool × Snapshot)
    (records : String → List Snapshot) (calls : List (Call Snapshot)) :
    Independent recoverStopped (.opened records) calls ↔ FailsLast calls := by
  rw [← Execution.undisturbed_iff recoverStopped calls (.opened records) rfl]
  constructor
  · intro hindependent answered hanswered
    exact ⟨hindependent.saved answered hanswered, hindependent.own answered hanswered⟩
  · intro hundisturbed
    -- The order in which snapshots are stored follows from each save being stored.
    have hsaved := fun answered hanswered ↦ (hundisturbed answered hanswered).1
    exact ⟨hsaved, Execution.stored_in_order recoverStopped calls _ hsaved,
      fun answered hanswered ↦ (hundisturbed answered hanswered).2⟩

/-- One write of Session A fails: the snapshot of Session B is not stored, and Session C cannot be
observed. -/
theorem sessions_share_failures :
    let calls : List (Call Nat) :=
      [.save "A" 1 .putFails, .save "B" 2 .succeeds, .observe "C" false .succeeds true]
    let ended := (Execution.opened fun _ ↦ []).run (fun snapshot ↦ (false, snapshot)) calls
    ended.2 = [(.save "A" 1 .putFails, .error .own),
        (.save "B" 2 .succeeds, .error (.journal "A")),
        (.observe "C" false .succeeds true, .error (.journal "A"))] ∧
      ended.1.records "B" = [] ∧
      ¬ Independent (fun snapshot ↦ (false, snapshot)) (.opened fun _ ↦ []) calls := by
  intro calls ended
  refine ⟨rfl, rfl, fun h ↦ ?_⟩
  exact absurd (h.saved (.save "B" 2 .succeeds, .error (.journal "A")) (by simp [Execution.run,
    calls, Execution.step, Execution.saveSnapshot, Execution.opened, Execution.remember]) rfl) nofun

end

end RatThings.LocalSessionExecution
