import RatThings.Webhooks.Service

/-!
# Deliveries are unique and bounded

A delivery record moves by compare-and-swap only, and in four ways: it expires at the deadline, it
is disabled with its endpoint, an attempt claims it, and the attempt that claimed it last writes
its result. `DeliveryStep` is that list. Whatever a caller does besides leaves the records of
deliveries alone, so every invariant is derived from the list.

## Times

A call reads the clock when it begins and, if it makes an attempt, once more when the attempt has
ended. The first reading is the time at which the attempt starts, and is compared with the lease,
the backoff and the deadline. The second is the time from which the backoff is counted; a delivery
that was accepted keeps it in the place of its next attempt. It may be later than the deadline,
which an attempt has to meet only when it starts.

## The invariant

The lease of a record that is being delivered is that of the attempt which was started last
(`Recorded.leased`), and there are as many attempts as the record counts. A delivered record was
accepted by the attempt that was started last (`Accepted`): nobody may start another one after it,
since the status is final.
-/

namespace RatThings

open Concurrent Prog Service Setting

/-! ## What may happen to a delivery -/

/-- The caller of the attempt has read this time after the one at which it started. -/
def StartedAttempt.ReadAfter (attempt : StartedAttempt) (readings : List (ℕ × ℕ)) (time : ℕ) :
    Prop :=
  [(attempt.caller, attempt.startedAt), (attempt.caller, time)].Sublist readings

/-- One write of the call `pid` to a delivery that has been attempted as in `started`. -/
inductive DeliveryStep (pid : ℕ) (readings : List (ℕ × ℕ)) (started : List StartedAttempt)
    (delivery : WebhookDelivery) : WebhookDelivery → Prop
  | expire : ¬delivery.status.Ended →
      DeliveryStep pid readings started delivery { delivery with status := .failed }
  | disable : ¬delivery.status.Ended →
      DeliveryStep pid readings started delivery { delivery with status := .disabled }
  | claim (now : ℕ) : (pid, now) ∈ readings → ¬delivery.status.Ended →
      delivery.nextAttemptAt ≤ now → delivery.leaseUntil.getD 0 ≤ now → now < delivery.deadline →
      DeliveryStep pid readings started delivery (claimDelivery now delivery)
  | finish (status : Option ℕ) (finishedAt now : ℕ) : delivery.status = .delivering →
      started.getLast? = some ⟨pid, now⟩ →
      StartedAttempt.ReadAfter ⟨pid, now⟩ readings finishedAt →
      DeliveryStep pid readings started delivery (finishDelivery status finishedAt delivery)

/-- The attempts after a write. -/
def startedBy (pid : ℕ) (started : List StartedAttempt) (next : WebhookDelivery) :
    List StartedAttempt :=
  if next.status = .delivering then started ++ [⟨pid, next.leaseUntil.getD 0 - 60⟩] else started

theorem startedBy_claim (pid now : ℕ) (started : List StartedAttempt) (delivery : WebhookDelivery) :
    startedBy pid started (claimDelivery now delivery) = started ++ [⟨pid, now⟩] := by
  simp [startedBy, claimDelivery]

theorem startedBy_of_ne {pid : ℕ} {started : List StartedAttempt} {next : WebhookDelivery}
    (h : next.status ≠ .delivering) : startedBy pid started next = started := if_neg h

theorem webhookRetry_bounded (attempts now deadline : ℕ) :
    (webhookRetry attempts now deadline).2 ≤ deadline := by
  unfold webhookRetry
  split
  · exact le_rfl
  · exact min_le_left _ _

theorem webhookRetry_status (attempts now deadline : ℕ) :
    (webhookRetry attempts now deadline).1 ≠ .delivering := by
  unfold webhookRetry
  split <;> simp

theorem webhookRetry_open (attempts now deadline : ℕ) :
    (webhookRetry attempts now deadline).1 ≠ .delivered := by
  unfold webhookRetry
  split <;> simp

theorem finishDelivery_status (status : Option ℕ) (finishedAt : ℕ) (claimed : WebhookDelivery) :
    (finishDelivery status finishedAt claimed).status ≠ .delivering := by
  simp only [finishDelivery, planWebhookResult]
  split
  · simp
  · exact webhookRetry_status _ _ _

theorem finishDelivery_bounded {status : Option ℕ} {finishedAt : ℕ} {claimed : WebhookDelivery}
    (h : (finishDelivery status finishedAt claimed).status ≠ .delivered) :
    (finishDelivery status finishedAt claimed).nextAttemptAt ≤ claimed.deadline := by
  simp only [finishDelivery, planWebhookResult] at h ⊢
  split at h
  · exact absurd rfl h
  · next hcode =>
    rw [if_neg hcode]
    exact webhookRetry_bounded _ _ _

section

variable {ownerId id : String} {pid : ℕ} {readings : List (ℕ × ℕ)} {started : List StartedAttempt}
  {delivery next : WebhookDelivery}

/-- What is fixed when a delivery is created. -/
def WebhookDelivery.Same (delivery next : WebhookDelivery) : Prop :=
  next.endpointId = delivery.endpointId ∧ next.event = delivery.event ∧
    next.webhookId = delivery.webhookId ∧ next.deadline = delivery.deadline

theorem DeliveryStep.same (h : DeliveryStep pid readings started delivery next) :
    delivery.Same next := by
  obtain _ | _ | _ | _ := h <;> exact ⟨rfl, rfl, rfl, rfl⟩

theorem DeliveryStep.not_ended (h : DeliveryStep pid readings started delivery next) :
    ¬delivery.status.Ended := by
  rcases h with h | h | ⟨-, -, h, -, -, -⟩ | ⟨-, -, -, h, -, -⟩
  · exact h
  · exact h
  · exact h
  · rw [h]
    decide

/-- The attempt that was started last was accepted, and the delivery says when it ended. -/
def WebhookDelivery.Accepted (delivery : WebhookDelivery) (started : List StartedAttempt)
    (readings : List (ℕ × ℕ)) : Prop :=
  ∃ attempt, started.getLast? = some attempt ∧
    attempt.ReadAfter readings delivery.nextAttemptAt ∧
      ∃ code, delivery.lastStatus = some code ∧ 200 ≤ code ∧ code < 300

/-- Only an attempt that was accepted makes a delivery delivered. -/
theorem DeliveryStep.accepted (h : DeliveryStep pid readings started delivery next)
    (hdelivered : next.status = .delivered) :
    next.Accepted (startedBy pid started next) readings := by
  obtain _ | _ | ⟨now, -, -, -, -, -⟩ | ⟨status, finishedAt, now, -, hlast, hread⟩ := h
  · cases hdelivered
  · cases hdelivered
  · cases hdelivered
  · rw [startedBy_of_ne (finishDelivery_status _ _ _)]
    by_cases haccepted : ∃ code ∈ status, 200 ≤ code ∧ code < 300
    · have hresult : planWebhookResult status finishedAt delivery = (.delivered, finishedAt) :=
        if_pos haccepted
      obtain ⟨code, hcode, hrange⟩ := haccepted
      obtain rfl := Option.mem_def.mp hcode
      refine ⟨⟨pid, now⟩, hlast, ?_, code, rfl, hrange⟩
      rw [finishDelivery, hresult]
      exact hread
    · have hresult : planWebhookResult status finishedAt delivery =
          webhookRetry delivery.attempts finishedAt delivery.deadline := if_neg haccepted
      rw [finishDelivery, hresult] at hdelivered
      exact absurd hdelivered (webhookRetry_open _ _ _)

/-- What a delivery record and the attempts at it say about each other. -/
structure WebhookDelivery.Recorded (ownerId id : String) (delivery : WebhookDelivery)
    (started : List StartedAttempt) : Prop where
  named : id = deliveryId ownerId delivery.endpointId delivery.event
  webhookId : delivery.webhookId = id
  counted : started.length = delivery.attempts
  early : ∀ attempt ∈ started, attempt.startedAt < delivery.deadline
  bounded : delivery.status ≠ .delivered → delivery.nextAttemptAt ≤ delivery.deadline
  leased : delivery.status = .delivering → ∃ attempt, started.getLast? = some attempt ∧
    delivery.leaseUntil = some (attempt.startedAt + 60)

theorem recorded_pending (ownerId endpointId : String) (event : SessionWebhookEvent) :
    (pendingDelivery ownerId endpointId event).Recorded ownerId
      (deliveryId ownerId endpointId event) [] where
  named := rfl
  webhookId := rfl
  counted := rfl
  early _ h := absurd h List.not_mem_nil
  bounded _ := Nat.le_add_right _ _
  leased h := nomatch h

/-- **The step lemma.** -/
theorem DeliveryStep.recorded (h : DeliveryStep pid readings started delivery next)
    (hd : delivery.Recorded ownerId id started) :
    next.Recorded ownerId id (startedBy pid started next) := by
  have hopen : ¬delivery.status.Ended := h.not_ended
  have hbounded : delivery.nextAttemptAt ≤ delivery.deadline :=
    hd.bounded fun hdelivered ↦ hopen (hdelivered ▸ by decide)
  induction h with
  | expire =>
    rw [startedBy_of_ne (by simp)]
    exact ⟨hd.named, hd.webhookId, hd.counted, hd.early, fun _ ↦ hbounded, by simp⟩
  | disable =>
    rw [startedBy_of_ne (by simp)]
    exact ⟨hd.named, hd.webhookId, hd.counted, hd.early, fun _ ↦ hbounded, by simp⟩
  | claim now _ _ _ _ hnow =>
    rw [startedBy_claim]
    refine ⟨hd.named, hd.webhookId, ?_, ?_, fun _ ↦ hbounded, fun _ ↦ ?_⟩
    · rw [List.length_append, hd.counted]
      rfl
    · intro attempt hattempt
      rcases List.mem_append.mp hattempt with hold | hnew
      · exact hd.early attempt hold
      · obtain rfl := List.mem_singleton.mp hnew
        exact hnow
    · exact ⟨⟨pid, now⟩, List.getLast?_concat, rfl⟩
  | finish status finishedAt =>
    rw [startedBy_of_ne (finishDelivery_status _ _ _)]
    refine ⟨hd.named, hd.webhookId, hd.counted, hd.early, fun hne ↦ ?_, fun hstatus ↦ ?_⟩
    · exact finishDelivery_bounded hne
    · exact absurd hstatus (finishDelivery_status _ _ _)

end

/-! ## What may happen to the world -/

/-- What one step of the call `pid` does to one delivery. -/
inductive DeliveryChange (ownerId : String) (pid : ℕ) (w w' : WebhookWorld) (id : String) : Prop
  | none (record : w'.records (.delivery id) = w.records (.delivery id))
      (started : w'.ghost.started id = w.ghost.started id)
  | create (endpointId : String) (event : SessionWebhookEvent)
      (named : id = deliveryId ownerId endpointId event)
      (before : w.records (.delivery id) = Option.none)
      (after : w'.records (.delivery id) = some ⟨1, pendingDelivery ownerId endpointId event⟩)
      (started : w'.ghost.started id = w.ghost.started id)
  | write (record : Versioned WebhookDelivery) (next : WebhookDelivery)
      (before : w.records (.delivery id) = some record)
      (step : DeliveryStep pid w.ghost.readings (w.ghost.started id) record.value next)
      (after : w'.records (.delivery id) = some ⟨record.revision + 1, next⟩)
      (started : w'.ghost.started id = startedBy pid (w.ghost.started id) next)

structure WebhookWorld.Consistent (ownerId : String) (w : WebhookWorld) : Prop where
  recorded : ∀ id record, w.records (.delivery id) = some record →
    record.value.Recorded ownerId id (w.ghost.started id)
  unstarted : ∀ id, w.records (.delivery id) = none → w.ghost.started id = []
  read : ∀ id, ∀ attempt ∈ w.ghost.started id,
    (attempt.caller, attempt.startedAt) ∈ w.ghost.readings
  posted : ∀ pid post, (pid, post) ∈ w.ghost.posts →
    ∃ record, w.records (.delivery post.webhookId) = some record ∧
      record.value.event = post.event ∧ ⟨pid, post.timestamp⟩ ∈ w.ghost.started post.webhookId
  accepted : ∀ id record, w.records (.delivery id) = some record →
    record.value.status = .delivered →
      record.value.Accepted (w.ghost.started id) w.ghost.readings

/-- The second world came after the first. -/
structure WebhookWorld.Extends (w w' : WebhookWorld) : Prop where
  records : ∀ id, (w.records (.delivery id)).Precedes (w'.records (.delivery id))
  unchanged : ∀ id, (w.records (.delivery id)).revision = (w'.records (.delivery id)).revision →
    w'.ghost.started id = w.ghost.started id
  started : ∀ id, w.ghost.started id <+: w'.ghost.started id
  kept : ∀ id record, w.records (.delivery id) = some record →
    ∃ record', w'.records (.delivery id) = some record' ∧ record.value.Same record'.value
  ended : ∀ id record, w.records (.delivery id) = some record → record.value.status.Ended →
    w'.records (.delivery id) = some record
  readings : w.ghost.readings <+: w'.ghost.readings

namespace WebhookWorld

variable {ownerId : String} {pid : ℕ} {w w' w₁ w₂ w₃ : WebhookWorld}

theorem Extends.refl (w : WebhookWorld) : w.Extends w where
  records _ := .refl _
  unchanged _ _ := rfl
  started _ := List.prefix_rfl
  kept _ _ h := ⟨_, h, rfl, rfl, rfl, rfl⟩
  ended _ _ h _ := h
  readings := List.prefix_rfl

theorem Extends.trans (h : w₁.Extends w₂) (h' : w₂.Extends w₃) : w₁.Extends w₃ := by
  constructor
  · exact fun id ↦ (h.records id).trans (h'.records id)
  · intro id hrevision
    have hfirst := (h.records id).1
    have hsecond := (h'.records id).1
    rw [h'.unchanged id (by omega), h.unchanged id (by omega)]
  · exact fun id ↦ (h.started id).trans (h'.started id)
  · intro id record hrecord
    obtain ⟨record₂, hrecord₂, hendpoint, hevent, hid, hdeadline⟩ := h.kept id record hrecord
    obtain ⟨record₃, hrecord₃, hendpoint', hevent', hid', hdeadline'⟩ := h'.kept id record₂ hrecord₂
    exact ⟨record₃, hrecord₃, hendpoint'.trans hendpoint, hevent'.trans hevent, hid'.trans hid,
      hdeadline'.trans hdeadline⟩
  · exact fun id record hrecord hended ↦
      h'.ended id record (h.ended id record hrecord hended) hended
  · exact h.readings.trans h'.readings

/-- Nothing happens to deliveries, and the history goes on. -/
theorem Extends.of_same (hrecords : ∀ id, w'.records (.delivery id) = w.records (.delivery id))
    (hstarted : w'.ghost.started = w.ghost.started)
    (hreadings : w.ghost.readings <+: w'.ghost.readings) : w.Extends w' where
  records id := (hrecords id).symm ▸ Slot.Precedes.refl _
  unchanged id _ := congrFun hstarted id
  started id := (congrFun hstarted id).symm ▸ List.prefix_rfl
  kept id _ h := ⟨_, (hrecords id).trans h, rfl, rfl, rfl, rfl⟩
  ended id _ h _ := (hrecords id).trans h
  readings := hreadings

theorem Extends.of_change (h : ∀ id, DeliveryChange ownerId pid w w' id)
    (hreadings : w'.ghost.readings = w.ghost.readings) : w.Extends w' := by
  constructor
  · intro id
    rcases h id with ⟨hrecord, -⟩ | ⟨_, _, -, hbefore, hafter, -⟩ | ⟨record, next, hbefore, -,
      hafter, -⟩
    · rw [hrecord]
      exact .refl _
    · rw [hbefore, hafter]
      constructor <;> simp
    · rw [hbefore, hafter]
      constructor <;> simp
  · intro id hrevision
    rcases h id with ⟨-, hstarted⟩ | ⟨-, -, -, -, -, hstarted⟩ | ⟨record, next, hbefore, -,
      hafter, -⟩
    · exact hstarted
    · exact hstarted
    · rw [hbefore, hafter, Slot.revision_some, Slot.revision_some] at hrevision
      dsimp only at hrevision
      omega
  · intro id
    rcases h id with ⟨-, hstarted⟩ | ⟨-, -, -, -, -, hstarted⟩ | ⟨record, next, -, -, -, hstarted⟩
    · exact hstarted ▸ List.prefix_rfl
    · exact hstarted ▸ List.prefix_rfl
    · rw [hstarted]
      unfold startedBy
      split
      · exact List.prefix_append _ _
      · exact List.prefix_rfl
  · intro id record hrecord
    rcases h id with ⟨hsame, -⟩ | ⟨-, -, -, hbefore, -, -⟩ | ⟨record', next, hbefore, hstep,
      hafter, -⟩
    · exact ⟨record, hsame.trans hrecord, rfl, rfl, rfl, rfl⟩
    · rw [hbefore] at hrecord
      cases hrecord
    · rw [hbefore] at hrecord
      cases hrecord
      exact ⟨_, hafter, hstep.same⟩
  · intro id record hrecord hended
    rcases h id with ⟨hsame, -⟩ | ⟨-, -, -, hbefore, -, -⟩ | ⟨record', next, hbefore, hstep, -, -⟩
    · exact hsame.trans hrecord
    · rw [hbefore] at hrecord
      cases hrecord
    · rw [hbefore] at hrecord
      cases hrecord
      exact absurd hended hstep.not_ended
  · simp only [hreadings, List.prefix_rfl]

/-- The invariant follows a change of the deliveries. -/
theorem Consistent.of_change (hw : w.Consistent ownerId)
    (h : ∀ id, DeliveryChange ownerId pid w w' id)
    (hreadings : w'.ghost.readings = w.ghost.readings) (hposts : w'.ghost.posts = w.ghost.posts) :
    w'.Consistent ownerId := by
  have hext : w.Extends w' := .of_change h hreadings
  constructor
  · intro id record hrecord
    rcases h id with ⟨hsame, hstarted⟩ | ⟨endpointId, event, rfl, hbefore, hafter, hstarted⟩ |
      ⟨record', next, hbefore, hstep, hafter, hstarted⟩
    · rw [hstarted]
      exact hw.recorded id record (hsame.symm.trans hrecord)
    · obtain rfl := Option.some.inj (hafter.symm.trans hrecord)
      rw [hstarted, hw.unstarted _ hbefore]
      exact recorded_pending _ _ _
    · obtain rfl := Option.some.inj (hafter.symm.trans hrecord)
      rw [hstarted]
      exact hstep.recorded (hw.recorded id record' hbefore)
  · intro id hnone
    rcases h id with ⟨hsame, hstarted⟩ | ⟨_, _, -, -, hafter, -⟩ | ⟨_, _, -, -, hafter, -⟩
    · rw [hstarted]
      exact hw.unstarted id (hsame.symm.trans hnone)
    · rw [hafter] at hnone
      cases hnone
    · rw [hafter] at hnone
      cases hnone
  · intro id attempt hattempt
    rw [hreadings]
    rcases h id with ⟨-, hstarted⟩ | ⟨-, -, -, -, -, hstarted⟩ |
      ⟨record, next, -, hstep, -, hstarted⟩
    · exact hw.read id attempt (hstarted ▸ hattempt)
    · exact hw.read id attempt (hstarted ▸ hattempt)
    · rw [hstarted] at hattempt
      -- Only a claim adds an attempt, and it is started at a time that its call has read.
      obtain _ | _ | ⟨now, hnow, -⟩ | _ := hstep
      · rw [startedBy_of_ne (by simp)] at hattempt
        exact hw.read id attempt hattempt
      · rw [startedBy_of_ne (by simp)] at hattempt
        exact hw.read id attempt hattempt
      · rw [startedBy_claim] at hattempt
        rcases List.mem_append.mp hattempt with hold | hnew
        · exact hw.read id attempt hold
        · obtain rfl := List.mem_singleton.mp hnew
          exact hnow
      · rw [startedBy_of_ne (finishDelivery_status _ _ _)] at hattempt
        exact hw.read id attempt hattempt
  · intro q post hpost
    rw [hposts] at hpost
    obtain ⟨record, hrecord, hevent, hstarted⟩ := hw.posted q post hpost
    obtain ⟨record', hrecord', -, hevent', -, -⟩ := hext.kept _ record hrecord
    exact ⟨record', hrecord', hevent'.trans hevent, (hext.started _).subset hstarted⟩
  · intro id record hrecord hdelivered
    rw [hreadings]
    rcases h id with ⟨hsame, hstarted⟩ | ⟨endpointId, event, -, -, hafter, -⟩ |
      ⟨record', next, -, hstep, hafter, hstarted⟩
    · rw [hstarted]
      exact hw.accepted id record (hsame.symm.trans hrecord) hdelivered
    · obtain rfl := Option.some.inj (hafter.symm.trans hrecord)
      cases hdelivered
    · obtain rfl := Option.some.inj (hafter.symm.trans hrecord)
      rw [hstarted]
      exact hstep.accepted hdelivered

/-- The invariant follows what goes on besides the records. -/
theorem Consistent.of_history (hw : w.Consistent ownerId) (hrecords : w'.records = w.records)
    (hstarted : w'.ghost.started = w.ghost.started)
    (hreadings : w.ghost.readings <+: w'.ghost.readings)
    (hposts : ∀ pid post, (pid, post) ∈ w'.ghost.posts → (pid, post) ∈ w.ghost.posts ∨
      ∃ record, w.records (.delivery post.webhookId) = some record ∧
        record.value.event = post.event ∧
          ⟨pid, post.timestamp⟩ ∈ w.ghost.started post.webhookId) :
    w'.Consistent ownerId := by
  constructor
  · rw [hrecords, hstarted]
    exact hw.recorded
  · rw [hrecords, hstarted]
    exact hw.unstarted
  · rw [hstarted]
    exact fun id attempt hattempt ↦ hreadings.subset (hw.read id attempt hattempt)
  · intro q post hpost
    rw [hrecords, hstarted]
    rcases hposts q post hpost with hold | hnew
    · exact hw.posted q post hold
    · exact hnew
  · rw [hrecords, hstarted]
    intro id record hrecord hdelivered
    obtain ⟨attempt, hlast, hread, hcode⟩ := hw.accepted id record hrecord hdelivered
    exact ⟨attempt, hlast, hread.trans hreadings.sublist, hcode⟩

end WebhookWorld

/-! ## Steps -/

def webhookSpec (ownerId : String) :
    RecordSpec WebhookKey WebhookValue WebhookGhost WebhookCall where
  inv := WebhookWorld.Consistent ownerId
  since := WebhookWorld.Extends
  allowed p w w' := ∀ id, DeliveryChange ownerId p.1 w w' id
  since_refl := .refl
  since_trans := .trans
  allowed_refl _ _ _ := .none rfl rfl

abbrev webhookSetting (options : WebhookOptions) :
    Setting WebhookWorld (RecordEffect WebhookKey WebhookValue WebhookAsk)
      (RecordEffect.Answer WebhookAsk.Answer) ServiceFailure WebhookResult WebhookCall
      (RecordChoice WebhookChoice) :=
  (webhookSpec options.ownerId).setting webhookSurroundings (webhookBody options) .free

section

variable {options : WebhookOptions} {p : ℕ × WebhookCall} {P : WebhookWorld → Prop}
  {w w₀ : WebhookWorld} {st : Store WebhookKey WebhookValue}

theorem steps_of_change {w' : WebhookWorld} (hw : w.Consistent options.ownerId)
    (h : ∀ id, DeliveryChange options.ownerId p.1 w w' id)
    (hreadings : w'.ghost.readings = w.ghost.readings) (hposts : w'.ghost.posts = w.ghost.posts) :
    (webhookSpec options.ownerId).Steps p w w' :=
  ⟨hw.of_change h hreadings hposts, .of_change h hreadings, h⟩

/-- The attempts at a delivery that a commit leaves alone. -/
theorem observeAttempts_of_same {pid : ℕ} {before after : Store WebhookKey WebhookValue}
    {g : WebhookGhost} {id : String} (h : after (.delivery id) = before (.delivery id)) :
    (observeAttempts pid before after g).started id = g.started id := by
  simp only [observeAttempts, h]
  split
  · rfl
  · next hrecord => simp [hrecord]

theorem observeAttempts_of_write {pid : ℕ} {before after : Store WebhookKey WebhookValue}
    {g : WebhookGhost} {id : String} {record : Versioned WebhookDelivery} {next : WebhookDelivery}
    (hbefore : before (.delivery id) = some record)
    (h : after (.delivery id) = some ⟨record.revision + 1, next⟩) :
    (observeAttempts pid before after g).started id = startedBy pid (g.started id) next := by
  have hne : record ≠ ⟨record.revision + 1, next⟩ := by
    intro heq
    have hrevision : record.revision = record.revision + 1 := congrArg Versioned.revision heq
    omega
  simp [observeAttempts, startedBy, h, hbefore, hne]

/-- A commit that names no delivery. -/
theorem steps_of_frame {ws : List (Write WebhookKey WebhookValue)}
    (hw : w.Consistent options.ownerId) (h : w.records.commit ws = some st)
    (hframe : ∀ id, ∀ write ∈ ws, WebhookKey.delivery id ≠ write.key) :
    (webhookSpec options.ownerId).Steps p w
      ⟨st, webhookSurroundings.observe p.1 w.records st w.ghost⟩ := by
  refine steps_of_change hw (fun id ↦ ?_) rfl rfl
  have hsame : st (.delivery id) = w.records (.delivery id) := Store.commit_frame h (hframe id)
  exact .none hsame (observeAttempts_of_same hsame)

/-- A commit of one delivery leaves the others alone. -/
theorem change_of_ne {id id' : String} {expected : ℕ} {value : WebhookDelivery}
    (h : w.records.commit [⟨.delivery id, expected, some value⟩] = some st) (hne : id' ≠ id) :
    DeliveryChange options.ownerId p.1 w
      ⟨st, webhookSurroundings.observe p.1 w.records st w.ghost⟩ id' := by
  have hsame : st (.delivery id') = w.records (.delivery id') :=
    Store.commit_frame h (by simpa using hne)
  exact .none hsame (observeAttempts_of_same hsame)

theorem steps_of_create {endpointId : String} {event : SessionWebhookEvent}
    (hw : w.Consistent options.ownerId)
    (hnone : w.records (.delivery (deliveryId options.ownerId endpointId event)) = none)
    (h : w.records.commit [⟨.delivery (deliveryId options.ownerId endpointId event), 0,
      some (pendingDelivery options.ownerId endpointId event)⟩] = some st) :
    (webhookSpec options.ownerId).Steps p w
      ⟨st, webhookSurroundings.observe p.1 w.records st w.ghost⟩ := by
  refine steps_of_change hw (fun id ↦ ?_) rfl rfl
  by_cases hid : id = deliveryId options.ownerId endpointId event
  · subst hid
    have hafter := Store.commit_written h List.mem_cons_self (by simp)
    refine .create endpointId event rfl hnone hafter ?_
    simp only [webhookSurroundings, observeAttempts]
    rw [hafter]
    simp [pendingDelivery]
  · exact change_of_ne h hid

/-- A write to a delivery that was read, if it is one of the steps. -/
theorem steps_of_save {id : String} {resource : Versioned WebhookDelivery} {next : WebhookDelivery}
    (hw : w.Consistent options.ownerId) (hsince : w₀.Extends w)
    (hread : w₀.records (.delivery id) = some resource)
    (hstep : w.records (.delivery id) = some resource →
      DeliveryStep p.1 w.ghost.readings (w.ghost.started id) resource.value next)
    (h : w.records.commit [⟨.delivery id, resource.revision, some next⟩] = some st) :
    (webhookSpec options.ownerId).Steps p w
        ⟨st, webhookSurroundings.observe p.1 w.records st w.ghost⟩ ∧
      st (.delivery id) = some ⟨resource.revision + 1, next⟩ ∧
        (webhookSurroundings.observe p.1 w.records st w.ghost).started id =
          startedBy p.1 (w.ghost.started id) next := by
  have hfound : w.records (.delivery id) = some resource := by
    exact (Store.commit_of_seen h List.mem_cons_self (by rw [hread]; rfl)
      (hsince.records id)).trans hread
  have hafter := Store.commit_written h List.mem_cons_self (by simp)
  have hstarted : (webhookSurroundings.observe p.1 w.records st w.ghost).started id =
      startedBy p.1 (w.ghost.started id) next := observeAttempts_of_write hfound hafter
  refine ⟨steps_of_change hw (fun id' ↦ ?_) rfl rfl, hafter, hstarted⟩
  by_cases hid : id' = id
  · subst hid
    exact .write resource next hfound (hstep hfound) hafter hstarted
  · exact change_of_ne h hid

/-! ## Requests -/

/-- A question about which the history says nothing. -/
theorem yields_askWebhook {q : WebhookAsk}
    (h : ∀ x g a g', webhookSurroundings.answer p.1 q x g = some (a, g') → g' = g) :
    (webhookSetting options).Yields p (askWebhook q) fun _ ↦ True :=
  (RecordSpec.yields_ask fun x a g g' ha ↦ h x g a g' ha).forget

theorem yields_tryWebhook {β : Type} {m : WebhookProg (Except ServiceFailure β)}
    (h : (webhookSetting options).Yields p m fun _ ↦ True) :
    (webhookSetting options).Yields p (tryWebhook m) fun _ ↦ True :=
  h.bind fun _ _ ↦ yields_ofExcept fun _ _ ↦ trivial

/-- A reading of the clock is added to the history. -/
theorem meets_reading {R : ℕ → WebhookWorld → Prop} (hP : (webhookSetting options).Permanent P)
    (hR : ∀ w now, P w →
      R now ⟨w.records, { w.ghost with readings := w.ghost.readings ++ [(p.1, now)] }⟩) :
    (webhookSetting options).Meets p P (askWebhook .now) (fun now w ↦ P w ∧ R now w)
      fun _ _ ↦ True := by
  refine RecordSpec.meets_ask hP ?_
  rintro w x now g hw hp - hanswer
  cases hanswer
  have hreadings : w.ghost.readings <+: w.ghost.readings ++ [(p.1, x.answer.now)] :=
    List.prefix_append _ _
  refine ⟨⟨?_, ?_, fun id ↦ .none rfl rfl⟩, hR w _ hp⟩
  · exact WebhookWorld.Consistent.of_history hw rfl rfl hreadings fun _ _ ↦ .inl
  · exact .of_same (fun _ ↦ rfl) rfl hreadings

theorem meets_now (hP : (webhookSetting options).Permanent P) :
    (webhookSetting options).Meets p P (askWebhook .now)
      (fun now w ↦ P w ∧ (p.1, now) ∈ w.ghost.readings) fun _ _ ↦ True :=
  meets_reading hP fun _ _ _ ↦ List.mem_append_right _ List.mem_cons_self

/-- The reading after the one with which an attempt was started. -/
theorem meets_finishedAt {now : ℕ} (hP : (webhookSetting options).Permanent P)
    (hread : ∀ w, P w → (p.1, now) ∈ w.ghost.readings) :
    (webhookSetting options).Meets p P (askWebhook .now)
      (fun finishedAt w ↦ P w ∧
        StartedAttempt.ReadAfter ⟨p.1, now⟩ w.ghost.readings finishedAt) fun _ _ ↦ True := by
  refine meets_reading hP fun w finishedAt hp ↦ ?_
  have hfirst : [(p.1, now)].Sublist w.ghost.readings :=
    List.singleton_sublist.mpr (hread w hp)
  exact hfirst.append (List.Sublist.refl [(p.1, finishedAt)])

theorem yields_now : (webhookSetting options).Yields p (askWebhook .now) fun _ ↦ True :=
  (meets_now (P := fun _ ↦ True) fun _ _ _ _ _ _ _ _ ↦ trivial).conseq (fun _ _ h ↦ h)
    (fun _ _ _ _ ↦ trivial)
    fun _ _ _ h ↦ h

theorem yields_readWebhook (k : WebhookKey) :
    (webhookSetting options).Yields p (readWebhook k) fun _ ↦ True :=
  RecordSpec.meets_get (f := Prog.ret) stable_true fun _ _ _ ↦ meets_ret fun _ _ _ ↦ trivial

theorem yields_commitFrame {ws : List (Write WebhookKey WebhookValue)}
    (hframe : ∀ id, ∀ write ∈ ws, WebhookKey.delivery id ≠ write.key) :
    (webhookSetting options).Yields p (commitWrites ws) fun _ ↦ True :=
  (meets_commitWrites (P := fun _ ↦ True) (R := fun _ ↦ True) (fun _ _ _ _ _ _ _ _ ↦ trivial)
    fun _ _ hw _ h ↦ ⟨steps_of_frame hw h hframe, trivial⟩).conseq (fun _ _ h ↦ h)
      (fun _ _ _ _ ↦ trivial) fun _ _ _ _ ↦ trivial

/-! ## Endpoints -/

theorem yields_validate {input : WebhookEndpointInput} {previous : Option WebhookEndpoint} :
    (webhookSetting options).Yields p (options.validate input previous) fun _ ↦ True :=
  yields_orRefuse.forget

theorem yields_requiredWebhook (k : WebhookKey) :
    (webhookSetting options).Yields p (requiredRecord k : WebhookProg _) fun _ ↦ True := by
  refine (yields_readWebhook k).bind fun slot _ ↦ ?_
  cases slot with
  | none => exact yields_raise
  | some resource => exact yields_ret trivial

theorem yields_createEndpoint (input : WebhookEndpointInput) :
    (webhookSetting options).Yields p (WebhookService.create options input) fun _ ↦ True := by
  refine yields_validate.bind fun input _ ↦ ?_
  refine (yields_readWebhook .registry).bind fun registry _ ↦ ?_
  split
  · exact yields_raise
  · refine (yields_askWebhook (by rintro x g a g' ⟨⟩; rfl)).bind fun id _ ↦ ?_
    refine yields_now.bind fun now _ ↦ ?_
    refine (yields_askWebhook (by rintro x g a g' ⟨⟩; rfl)).bind fun secret _ ↦ ?_
    refine (yields_tryWebhook (yields_askWebhook (by rintro x g a g' ⟨⟩; rfl))).bind
      fun reference _ ↦ ?_
    exact (yields_commitFrame (by simp)).bind fun _ _ ↦ yields_ret trivial

theorem yields_updateEndpoint (id : String) (input : WebhookEndpointInput) :
    (webhookSetting options).Yields p (WebhookService.update options id input) fun _ ↦ True := by
  refine (yields_requiredWebhook (.endpoint id)).bind fun resource _ ↦ ?_
  refine yields_validate.bind fun input _ ↦ ?_
  exact (yields_commitFrame (by simp)).bind fun _ _ ↦ yields_ret trivial

theorem yields_rotateEndpoint (id : String) :
    (webhookSetting options).Yields p (WebhookService.rotate id) fun _ ↦ True := by
  refine (yields_requiredWebhook (.endpoint id)).bind fun resource _ ↦ ?_
  refine (yields_askWebhook (by rintro x g a g' ⟨⟩; rfl)).bind fun secret _ ↦ ?_
  refine (yields_tryWebhook (yields_askWebhook (by rintro x g a g' ⟨⟩; rfl))).bind
    fun reference _ ↦ ?_
  refine (yields_commitFrame (by simp)).bind fun _ _ ↦ ?_
  exact (yields_tryWebhook (yields_askWebhook (by rintro x g a g' ⟨⟩; rfl))).bind
    fun _ _ ↦ yields_ret trivial

theorem yields_deleteAttempts (id : String) (resource : Versioned StoredWebhookEndpoint)
    (attempts : ℕ) :
    (webhookSetting options).Yields p (WebhookService.deleteAttempts id resource attempts)
      fun _ ↦ True := by
  induction attempts with
  | zero => exact yields_ret trivial
  | succ attempts ih =>
    refine (yields_readWebhook .registry).bind fun registry _ ↦ ?_
    refine (yields_commitFrame ?_).catching fun error ↦ ?_
    · cases registry <;> simp
    · split
      · exact yields_raise
      · exact ih

theorem yields_deleteEndpoint (id : String) :
    (webhookSetting options).Yields p (WebhookService.delete id) fun _ ↦ True := by
  refine (yields_requiredWebhook (.endpoint id)).bind fun resource _ ↦ ?_
  refine (yields_deleteAttempts id resource 10).bind fun _ _ ↦ ?_
  exact yields_tryWebhook (yields_askWebhook (by rintro x g a g' ⟨⟩; rfl))

/-! ## Fanout -/

theorem since_permanent_webhook (w₀ : WebhookWorld) :
    (webhookSetting options).Permanent w₀.Extends :=
  RecordSpec.since_permanent w₀

theorem yields_fanoutEvent (endpoint : WebhookEndpoint) (endpointId : String)
    (event : SessionWebhookEvent) :
    (webhookSetting options).Yields p
      (WebhookService.fanoutEvent options endpoint endpointId event) fun _ ↦ True := by
  unfold WebhookService.fanoutEvent
  split
  · refine RecordSpec.meets_get stable_true fun w₀ _ _ ↦ ?_
    cases hread : w₀.records (.delivery (deliveryId options.ownerId endpointId event)) with
    | some record => exact meets_ret fun _ _ _ ↦ trivial
    | none =>
      refine Meets.catching (U := fun _ _ ↦ True) ?_ fun error ↦ ?_
      · refine (meets_commitWrites (R := fun _ ↦ True) (since_permanent_webhook w₀)
          fun w st hw hsince h ↦ ?_).conseq (fun _ _ h ↦ h) (fun _ _ _ _ ↦ trivial)
            fun _ _ _ _ ↦ trivial
        have hnone : w.records (.delivery (deliveryId options.ownerId endpointId event)) =
            none := by
          exact (Store.commit_of_seen h List.mem_cons_self (by rw [hread]; rfl)
            (hsince.records _)).trans hread
        exact ⟨steps_of_create hw hnone h, trivial⟩
      · split
        · exact meets_ret fun _ _ _ ↦ trivial
        · exact meets_raise fun _ _ _ ↦ trivial
  · exact yields_ret trivial

theorem yields_fanoutEvents (endpoint : WebhookEndpoint) (endpointId : String)
    (events : List SessionWebhookEvent) :
    (webhookSetting options).Yields p
      (WebhookService.fanoutEvents options endpoint endpointId events) fun _ ↦ True := by
  induction events with
  | nil => exact yields_ret trivial
  | cons event events ih => exact (yields_fanoutEvent endpoint endpointId event).bind fun _ _ ↦ ih

theorem yields_fanoutEndpoint (events : List SessionWebhookEvent) (endpointId : String) :
    (webhookSetting options).Yields p
      (WebhookService.fanoutEndpoint options events endpointId) fun _ ↦ True := by
  refine (yields_readWebhook (.endpoint endpointId)).bind fun endpoint _ ↦ ?_
  cases endpoint with
  | none => exact yields_ret trivial
  | some endpoint =>
    dsimp only
    split
    · exact yields_fanoutEvents _ endpointId events
    · exact yields_ret trivial

theorem yields_fanoutEndpoints (events : List SessionWebhookEvent) (endpointIds : List String) :
    (webhookSetting options).Yields p
      (WebhookService.fanoutEndpoints options events endpointIds) fun _ ↦ True := by
  induction endpointIds with
  | nil => exact yields_ret trivial
  | cons endpointId endpointIds ih =>
    exact (yields_fanoutEndpoint events endpointId).bind fun _ _ ↦ ih

theorem yields_fanout (batchId : String) :
    (webhookSetting options).Yields p (WebhookService.fanout options batchId) fun _ ↦ True := by
  refine (yields_readWebhook (.batch batchId)).bind fun batch _ ↦ ?_
  cases batch with
  | none => exact yields_ret trivial
  | some batch => exact yields_fanoutEndpoints _ _

/-! ## Delivering -/

/-- A step that is written takes effect on the delivery as it was read. -/
theorem meets_save {id : String} {resource : Versioned WebhookDelivery} {next : WebhookDelivery}
    (hP : (webhookSetting options).Permanent P) (hsince : ∀ w, P w → w₀.Extends w)
    (hread : w₀.records (.delivery id) = some resource)
    (hstep : ∀ w, w.Consistent options.ownerId → P w → w.records (.delivery id) = some resource →
      DeliveryStep p.1 w.ghost.readings (w.ghost.started id) resource.value next) :
    (webhookSetting options).Meets p P (WebhookService.save id resource next)
      (fun saved w ↦ P w ∧ saved = ⟨resource.revision + 1, next⟩ ∧
        w.records (.delivery id) = some saved ∧
          ∃ started, w.ghost.started id = startedBy p.1 started next) fun _ _ ↦ True := by
  let Saved : WebhookWorld → Prop := fun w ↦
    w.records (.delivery id) = some ⟨resource.revision + 1, next⟩ ∧
      ∃ started, w.ghost.started id = startedBy p.1 started next
  refine Meets.bind ((meets_commitWrites (R := Saved) hP fun w st hw hp h ↦ ?_).conseq
    (fun _ _ h ↦ h) (fun _ _ _ h ↦ h) fun _ _ _ _ ↦ trivial) fun _ ↦ meets_ret ?_
  · obtain ⟨hsteps, hafter, hstarted⟩ :=
      steps_of_save hw (hsince w hp) hread (hstep w hw hp) h
    exact ⟨hsteps, hafter, _, hstarted⟩
  · rintro w - ⟨hp, hafter, hstarted⟩
    exact ⟨hp, rfl, hafter, hstarted⟩

/-- A save after which nothing is done. -/
theorem meets_lastSave {id : String} {resource : Versioned WebhookDelivery}
    {next : WebhookDelivery} {result : Option ℕ}
    (hP : (webhookSetting options).Permanent P) (hsince : ∀ w, P w → w₀.Extends w)
    (hread : w₀.records (.delivery id) = some resource)
    (hstep : ∀ w, w.Consistent options.ownerId → P w → w.records (.delivery id) = some resource →
      DeliveryStep p.1 w.ghost.readings (w.ghost.started id) resource.value next) :
    (webhookSetting options).Meets p P
      (do let _ ← WebhookService.save id resource next
          pure result) (fun _ _ ↦ True) fun _ _ ↦ True :=
  Meets.bind (meets_save hP hsince hread hstep) fun _ ↦ meets_ret fun _ _ _ ↦ trivial

/-- The request of an attempt is one that may be sent. -/
theorem meets_attempt {endpoint : StoredWebhookEndpoint} {delivery : WebhookDelivery} {now : ℕ}
    (hP : (webhookSetting options).Permanent P)
    (hpost : ∀ w, w.Consistent options.ownerId → P w → ∃ record,
      w.records (.delivery delivery.webhookId) = some record ∧
        record.value.event = delivery.event ∧ ⟨p.1, now⟩ ∈ w.ghost.started delivery.webhookId) :
    (webhookSetting options).Meets p P (WebhookService.attempt endpoint delivery now)
      (fun _ ↦ P) fun _ _ ↦ True := by
  refine Meets.catching (U := fun _ ↦ P) ?_ fun _ ↦ meets_ret fun _ _ h ↦ h
  have hsecret : (webhookSetting options).Yields p
      (tryWebhook (askWebhook (.readSecret endpoint.secretReference))) fun _ ↦ True :=
    yields_tryWebhook (yields_askWebhook (by rintro x g a g' ⟨⟩; rfl))
  refine Meets.bind ((hsecret.framed hP).conseq (fun _ _ h ↦ h) (fun _ _ _ h ↦ h.1)
    fun _ _ _ h ↦ h) fun secret ↦ ?_
  split
  · refine Meets.bind (M := fun _ ↦ P) ?_ fun _ ↦ meets_ret fun _ _ h ↦ h
    refine Meets.bind (M := fun _ ↦ P) ?_ fun status ↦ ?_
    · refine (RecordSpec.meets_ask (R := fun _ _ ↦ True) hP ?_).conseq (fun _ _ h ↦ h)
        (fun _ _ _ h ↦ h.1) fun _ _ _ h ↦ h
      rintro w x a g hw hp - hanswer
      cases hanswer
      refine ⟨⟨?_, .of_same (fun _ ↦ rfl) rfl List.prefix_rfl, fun id ↦ .none rfl rfl⟩, trivial⟩
      refine WebhookWorld.Consistent.of_history hw rfl rfl List.prefix_rfl ?_
      intro q post hmem
      rcases List.mem_append.mp hmem with hold | hnew
      · exact .inl hold
      · obtain ⟨rfl, rfl⟩ := Prod.mk.inj (List.mem_singleton.mp hnew)
        exact .inr (hpost w hw hp)
    · cases status with
      | ok code => exact meets_ret fun _ _ h ↦ h
      | error e => exact meets_raise fun _ _ h ↦ h
  · exact meets_raise fun _ _ h ↦ h

/-- From the claim of a delivery to its result. -/
theorem meets_claimed {id : String} {resource : Versioned WebhookDelivery}
    {endpoint : StoredWebhookEndpoint} {now : ℕ}
    (hread : w₀.records (.delivery id) = some resource)
    (hopen : ¬resource.value.status.Ended) (hbefore : now < resource.value.deadline)
    (hready : max resource.value.nextAttemptAt (resource.value.leaseUntil.getD 0) ≤ now) :
    (webhookSetting options).Meets p (fun w ↦ w₀.Extends w ∧ (p.1, now) ∈ w.ghost.readings)
      (do let claimed ← WebhookService.save id resource (claimDelivery now resource.value)
          let status ← WebhookService.attempt endpoint claimed.value now
          let finishedAt ← askWebhook .now
          let finished := finishDelivery status finishedAt claimed.value
          let _ ← WebhookService.save id claimed finished
          pure (if finished.status = .pending then
            some (max 1 (finished.nextAttemptAt - finishedAt)) else none))
      (fun _ _ ↦ True) fun _ _ ↦ True := by
  have hpermanent : (webhookSetting options).Permanent
      fun w ↦ w₀.Extends w ∧ (p.1, now) ∈ w.ghost.readings :=
    fun _ _ _ _ _ _ hguar h ↦ ⟨h.1.trans hguar.1, hguar.1.readings.subset h.2⟩
  refine Meets.bind (meets_save hpermanent (fun _ h ↦ h.1) hread fun w _ hp _ ↦ ?_)
    fun claimed ↦ ?_
  · exact .claim now hp.2 hopen (by omega) (by omega) hbefore
  -- From now on the state came after one in which this call holds the claim.
  refine RecordSpec.meets_start fun w₁ hw₁ ⟨hp₁, hclaimed, hrecord, started, hstarted⟩ ↦ ?_
  subst hclaimed
  rw [startedBy_claim] at hstarted
  have hlast : (w₁.ghost.started id).getLast? = some ⟨p.1, now⟩ := by
    rw [hstarted, List.getLast?_concat]
  have hwebhook : resource.value.webhookId = id := (hw₁.recorded id _ hrecord).webhookId
  refine Meets.bind (meets_attempt (since_permanent_webhook w₁) fun w _ hsince ↦ ?_)
    fun status ↦ ?_
  · obtain ⟨record, hafter, -, hevent, -, -⟩ := hsince.kept id _ hrecord
    have hmem : ⟨p.1, now⟩ ∈ w₁.ghost.started id := List.mem_of_getLast? hlast
    dsimp only [claimDelivery]
    rw [hwebhook]
    exact ⟨record, hafter, hevent, (hsince.started id).subset hmem⟩
  · refine Meets.bind (meets_finishedAt (since_permanent_webhook w₁) fun w hsince ↦
      hsince.readings.subset hp₁.2) fun finishedAt ↦ ?_
    have hfinished : (webhookSetting options).Permanent fun w ↦ WebhookWorld.Extends w₁ w ∧
        StartedAttempt.ReadAfter ⟨p.1, now⟩ w.ghost.readings finishedAt :=
      fun _ _ _ _ _ _ hguar h ↦ ⟨h.1.trans hguar.1, h.2.trans hguar.1.readings.sublist⟩
    refine meets_lastSave hfinished (fun _ h ↦ h.1) hrecord fun w _ hp hfound ↦ ?_
    refine .finish status finishedAt now rfl ?_ hp.2
    rw [hp.1.unchanged id (by rw [hrecord, hfound]), hlast]

theorem yields_deliver (id : String) :
    (webhookSetting options).Yields p (WebhookService.deliver id) fun _ ↦ True := by
  refine RecordSpec.meets_get stable_true fun w₀ _ _ ↦ ?_
  cases hread : w₀.records (.delivery id) with
  | none => exact meets_ret fun _ _ _ ↦ trivial
  | some resource =>
    have hsince : (webhookSetting options).Permanent (WebhookWorld.Extends w₀) :=
      since_permanent_webhook w₀
    dsimp only
    split
    · exact meets_ret fun _ _ _ ↦ trivial
    · next hopen =>
      refine Meets.bind (meets_now hsince) fun now ↦ ?_
      split
      · refine (meets_lastSave hsince (fun _ h ↦ h) hread fun w _ _ _ ↦ ?_).pre fun _ _ h ↦ h.1
        exact .expire hopen
      · next hbefore =>
        split
        · exact meets_ret fun _ _ _ ↦ trivial
        · next hready =>
          have hpermanent : (webhookSetting options).Permanent
              fun w ↦ WebhookWorld.Extends w₀ w ∧ (p.1, now) ∈ w.ghost.readings :=
            fun _ _ _ _ _ _ hguar h ↦ ⟨h.1.trans hguar.1, hguar.1.readings.subset h.2⟩
          refine RecordSpec.meets_get hpermanent.stable fun w₁ _ hp₁ ↦ ?_
          have hlater : ∀ w, WebhookWorld.Extends w₁ w →
              WebhookWorld.Extends w₀ w ∧ (p.1, now) ∈ w.ghost.readings :=
            fun w h ↦ ⟨hp₁.1.trans h, h.readings.subset hp₁.2⟩
          have hdisable : (webhookSetting options).Meets p (WebhookWorld.Extends w₁)
              (do let _ ← WebhookService.save id resource
                    { resource.value with status := .disabled }
                  pure none) (fun _ _ ↦ True) fun _ _ ↦ True :=
            (meets_lastSave hsince (fun _ h ↦ h) hread fun _ _ _ _ ↦ .disable hopen).pre
              fun w _ h ↦ (hlater w h).1
          split
          · next endpoint =>
            split
            · refine (meets_claimed hread hopen (not_le.mp hbefore) (not_lt.mp hready)).pre
                fun w _ h ↦ hlater w h
            · exact hdisable
          · exact hdisable

/-! ## Every run -/

theorem yields_webhookBody (options : WebhookOptions) (p : ℕ × WebhookCall) :
    (webhookSetting options).Yields p (webhookBody options p.2) fun _ ↦ True := by
  obtain ⟨pid, call⟩ := p
  cases call with
  | create input => exact (yields_createEndpoint input).bind fun _ _ ↦ yields_ret trivial
  | update id input => exact (yields_updateEndpoint id input).bind fun _ _ ↦ yields_ret trivial
  | rotate id => exact (yields_rotateEndpoint id).bind fun _ _ ↦ yields_ret trivial
  | delete id => exact (yields_deleteEndpoint id).bind fun _ _ ↦ yields_ret trivial
  | fanout batchId => exact (yields_fanout batchId).bind fun _ _ ↦ yields_ret trivial
  | deliver id => exact (yields_deliver id).bind fun _ _ ↦ yields_ret trivial

end

/-- The records of an owner to whom nothing has been delivered. -/
def undelivered (given : Store WebhookKey WebhookValue) : WebhookWorld where
  records
    | .delivery _ => none
    | .registry => given .registry
    | .endpoint id => given (.endpoint id)
    | .batch id => given (.batch id)
  ghost := ⟨fun _ ↦ [], [], []⟩

theorem consistent_undelivered (ownerId : String) (given : Store WebhookKey WebhookValue) :
    (undelivered given).Consistent ownerId where
  recorded _ _ h := nomatch h
  unstarted _ _ := rfl
  read _ _ h := absurd h List.not_mem_nil
  posted _ _ h := absurd h List.not_mem_nil
  accepted _ _ h := nomatch h

theorem webhookService_verified (options : WebhookOptions)
    (given : Store WebhookKey WebhookValue) :
    (webhookSetting options).Verified (undelivered given) (fun _ _ _ ↦ True)
      fun _ _ _ ↦ True where
  init := consistent_undelivered options.ownerId given
  body p := (yields_webhookBody options p).pre fun _ _ _ ↦ trivial
  post_stable _ _ := stable_true
  fail_stable _ _ := stable_true

abbrev WebhookConfig : Type :=
  Config WebhookWorld (RecordEffect WebhookKey WebhookValue WebhookAsk)
    (RecordEffect.Answer WebhookAsk.Answer) ServiceFailure WebhookResult WebhookCall

/-- An attempt that starts at a delivery as it is stored. -/
structure WebhookDelivery.Startable (delivery : WebhookDelivery) (started : List StartedAttempt)
    (now : ℕ) : Prop where
  opened : ¬delivery.status.Ended
  ready : delivery.nextAttemptAt ≤ now
  unleased : delivery.leaseUntil.getD 0 ≤ now
  early : now < delivery.deadline
  /-- The attempt before it has written its result, or its lease is over. -/
  after : ∀ attempt, started.getLast? = some attempt → delivery.status = .delivering →
    attempt.startedAt + 60 ≤ now

structure DeliveriesBounded (options : WebhookOptions) (c : WebhookConfig) : Prop where
  /-- An event and an endpoint have one delivery. -/
  unique : ∀ id id' record record', c.state.records (.delivery id) = some record →
    c.state.records (.delivery id') = some record' →
    record.value.endpointId = record'.value.endpointId →
    record.value.event.id = record'.value.event.id → id = id'
  /-- A request carries the id and the event of its delivery, and belongs to one of its attempts. -/
  posted : ∀ pid post, (pid, post) ∈ c.state.ghost.posts →
    ∃ record, c.state.records (.delivery post.webhookId) = some record ∧
      record.value.webhookId = post.webhookId ∧ record.value.event = post.event ∧
        ⟨pid, post.timestamp⟩ ∈ c.state.ghost.started post.webhookId
  fixed : ∀ c', Leads (webhookService options) .free c c' → ∀ id record,
    c.state.records (.delivery id) = some record →
      ∃ record', c'.state.records (.delivery id) = some record' ∧ record.value.Same record'.value
  final : ∀ c', Leads (webhookService options) .free c c' → ∀ id record,
    c.state.records (.delivery id) = some record → record.value.status.Ended →
      c'.state.records (.delivery id) = some record
  counted : ∀ id record, c.state.records (.delivery id) = some record →
    record.value.attempts = (c.state.ghost.started id).length
  /-- An attempt is started at a time that its call has read. -/
  read : ∀ id, ∀ attempt ∈ c.state.ghost.started id,
    (attempt.caller, attempt.startedAt) ∈ c.state.ghost.readings
  starts : ∀ ev c', (webhookService options).step c ev = some c' → ∀ id,
    c'.state.ghost.started id ≠ c.state.ghost.started id →
      ∃ record pid now, c.state.records (.delivery id) = some record ∧
        c'.state.ghost.started id = c.state.ghost.started id ++ [⟨pid, now⟩] ∧
          record.value.Startable (c.state.ghost.started id) now
  /-- Only the attempt that claimed a delivery last writes a result. -/
  result : ∀ pid x c', (webhookService options).step c (.resume pid x) = some c' →
    ∀ id record record', c.state.records (.delivery id) = some record →
      c'.state.records (.delivery id) = some record' → record.value.status = .delivering →
        record'.value.leaseUntil = some 0 →
          ∃ now, (c.state.ghost.started id).getLast? = some ⟨pid, now⟩
  /-- The next attempt is due before the deadline, as long as there may be one. -/
  bounded : ∀ id record, c.state.records (.delivery id) = some record →
    record.value.status ≠ .delivered → record.value.nextAttemptAt ≤ record.value.deadline
  /-- A delivered delivery was accepted by the attempt that was started last, and keeps the time
  which its caller has read when the attempt had ended. -/
  accepted : ∀ id record, c.state.records (.delivery id) = some record →
    record.value.status = .delivered →
      record.value.Accepted (c.state.ghost.started id) c.state.ghost.readings

theorem deliveryId_injective {ownerId endpointId endpointId' : String}
    {event event' : SessionWebhookEvent}
    (hendpoint : endpointId = endpointId') (hevent : event.id = event'.id) :
    deliveryId ownerId endpointId event = deliveryId ownerId endpointId' event' := by
  rw [deliveryId, deliveryId, hendpoint, hevent]

/-- What a step of the run does to each delivery. -/
theorem change_of_step {options : WebhookOptions} {given : Store WebhookKey WebhookValue}
    {c c' : WebhookConfig} {ev : Event WebhookCall (RecordChoice WebhookChoice)}
    (hc : Reachable (webhookService options) .free (undelivered given) c)
    (h : (webhookService options).step c ev = some c') :
    c'.state = c.state ∨ ∃ pid x, ev = .resume pid x ∧
      ∀ id, DeliveryChange options.ownerId pid c.state c'.state id := by
  have hV := webhookService_verified options given
  have hsound := hV.reachable hc
  cases ev with
  | start pid call =>
    obtain ⟨-, hstate, -⟩ := step_start_eq_some h
    exact .inl hstate
  | resume pid x =>
    obtain ⟨call, e, k, a, hproc, -, -⟩ := step_resume_eq_some h
    obtain ⟨-, -, hallowed⟩ := hV.resume hsound hproc (permits_free c _) h
    exact .inr ⟨pid, x, rfl, hallowed⟩

/-- A new attempt is a claim, and a claim finds the delivery ready. -/
theorem startable_of_change {ownerId id : String} {pid : ℕ} {w w' : WebhookWorld}
    (hw : w.Consistent ownerId) (h : DeliveryChange ownerId pid w w' id)
    (hne : w'.ghost.started id ≠ w.ghost.started id) :
    ∃ record now, w.records (.delivery id) = some record ∧
      w'.ghost.started id = w.ghost.started id ++ [⟨pid, now⟩] ∧
        record.value.Startable (w.ghost.started id) now := by
  rcases h with ⟨-, hstarted⟩ | ⟨-, -, -, -, -, hstarted⟩ | ⟨record, next, hbefore, hstep, -,
    hstarted⟩
  · exact absurd hstarted hne
  · exact absurd hstarted hne
  obtain _ | _ | ⟨now, -, hopen, hready, hlease, hearly⟩ | ⟨status, finishedAt⟩ := hstep
  · exact absurd (hstarted.trans (startedBy_of_ne (by simp))) hne
  · exact absurd (hstarted.trans (startedBy_of_ne (by simp))) hne
  · rw [startedBy_claim] at hstarted
    refine ⟨record, now, hbefore, hstarted, hopen, hready, hlease, hearly, ?_⟩
    intro attempt hattempt hdelivering
    obtain ⟨last, hlast, hleased⟩ := (hw.recorded id record hbefore).leased hdelivering
    cases hattempt.symm.trans hlast
    rw [hleased] at hlease
    exact hlease
  · exact absurd (hstarted.trans (startedBy_of_ne (finishDelivery_status _ _ _))) hne

theorem result_of_change {ownerId id : String} {pid : ℕ} {w w' : WebhookWorld}
    {record record' : Versioned WebhookDelivery} (hw : w.Consistent ownerId)
    (h : DeliveryChange ownerId pid w w' id) (hbefore : w.records (.delivery id) = some record)
    (hafter : w'.records (.delivery id) = some record')
    (hdelivering : record.value.status = .delivering)
    (hresult : record'.value.leaseUntil = some 0) :
    ∃ now, (w.ghost.started id).getLast? = some ⟨pid, now⟩ := by
  obtain ⟨last, -, hleased⟩ := (hw.recorded id record hbefore).leased hdelivering
  have hheld : record.value.leaseUntil ≠ some 0 := by
    rw [hleased]
    simp
  rcases h with ⟨hsame, -⟩ | ⟨-, -, -, hnone, -, -⟩ | ⟨found, next, hfound, hstep, hset, -⟩
  · rw [hbefore, hafter] at hsame
    obtain rfl := Option.some.inj hsame
    exact absurd hresult hheld
  · rw [hnone] at hbefore
    cases hbefore
  · obtain rfl := Option.some.inj (hfound.symm.trans hbefore)
    obtain rfl := Option.some.inj (hset.symm.trans hafter)
    obtain _ | _ | _ | ⟨-, -, now, -, hlast, -⟩ := hstep
    · exact absurd hresult hheld
    · exact absurd hresult hheld
    · simp [claimDelivery] at hresult
    · exact ⟨now, hlast⟩

/-- **Deliveries are unique and bounded**, in every run. -/
theorem deliveries_bounded {options : WebhookOptions} {given : Store WebhookKey WebhookValue}
    {c : WebhookConfig} (hc : Reachable (webhookService options) .free (undelivered given) c) :
    DeliveriesBounded options c := by
  have hV := webhookService_verified options given
  have hsound := hV.reachable hc
  have hw : WebhookWorld.Consistent options.ownerId c.state := hsound.inv
  have hlater : ∀ c', Leads (webhookService options) .free c c' →
      WebhookWorld.Extends c.state c'.state := fun c' hleads ↦
    hV.future WebhookWorld.Extends .refl .trans (fun _ _ _ _ hguar ↦ hguar.1) hsound hleads
  constructor
  · intro id id' record record' hrecord hrecord' hendpoint hevent
    rw [(hw.recorded id record hrecord).named, (hw.recorded id' record' hrecord').named]
    exact deliveryId_injective hendpoint hevent
  · intro pid post hpost
    obtain ⟨record, hrecord, hevent, hstarted⟩ := hw.posted pid post hpost
    exact ⟨record, hrecord, (hw.recorded _ record hrecord).webhookId, hevent, hstarted⟩
  · exact fun c' hleads ↦ (hlater c' hleads).kept
  · exact fun c' hleads ↦ (hlater c' hleads).ended
  · exact fun id record hrecord ↦ (hw.recorded id record hrecord).counted.symm
  · exact hw.read
  · -- Only a write of a delivery starts an attempt, and what it found is told by the change.
    intro ev c' hstep id hne
    rcases change_of_step hc hstep with hstate | ⟨pid, x, -, hchange⟩
    · exact absurd (by rw [hstate]) hne
    · obtain ⟨record, now, hfound⟩ := startable_of_change hw (hchange id) hne
      exact ⟨record, pid, now, hfound⟩
  · -- A delivery that is leased has no result yet, so a step that leaves the record is no case.
    intro pid x c' hstep id record record' hbefore hafter hdelivering hresult
    rcases change_of_step hc hstep with hstate | ⟨q, y, heq, hchange⟩
    · rw [hstate, hbefore] at hafter
      obtain rfl := Option.some.inj hafter
      obtain ⟨last, -, hleased⟩ := (hw.recorded id record hbefore).leased hdelivering
      rw [hleased] at hresult
      simp at hresult
    · cases heq
      exact result_of_change hw (hchange id) hbefore hafter hdelivering hresult
  · exact fun id record hrecord ↦ (hw.recorded id record hrecord).bounded
  · exact hw.accepted

/-! ## A run -/

def sampleWebhookOptions : WebhookOptions := ⟨"owner", fun _ ↦ none, String.length⟩

def sampleWebhookEvent : SessionWebhookEvent := ⟨"event", 0, .idle, "\x7b\x7d"⟩

/-- An endpoint, and a batch with one event for it. -/
def sampleEndpoint : Store WebhookKey WebhookValue
  | .endpoint "endpoint" =>
    some ⟨1, ⟨⟨"endpoint", "", "https://example.com/", [.idle], true, 0⟩, "reference"⟩⟩
  | .batch "batch" => some ⟨1, ⟨[sampleWebhookEvent], ["endpoint"]⟩⟩
  | _ => none

def sampleDeliveryId : String := deliveryId "owner" "endpoint" sampleWebhookEvent

/-- The delivery is written, and attempted before its deadline. The endpoint accepts it after. -/
def sampleWebhookDelivery : List (Event WebhookCall (RecordChoice WebhookChoice)) :=
  [.start 0 (.fanout "batch")] ++
  ([{}, {}, {}, {}] : List WebhookChoice).map (fun x ↦ .resume 0 ⟨x, .acknowledged⟩) ++
  [.start 1 (.deliver sampleDeliveryId)] ++
  ([{}, { now := 259199 }, {}, {}, { text := "whsec_key" }, { status := 200 }, { now := 259210 },
    {}] : List WebhookChoice).map fun x ↦ .resume 1 ⟨x, .acknowledged⟩

/-- A delivery that was accepted after its deadline says so in the time of its next attempt. -/
theorem delivered_after_deadline :
    ∃ c, Reachable (webhookService sampleWebhookOptions) .free (undelivered sampleEndpoint) c ∧
      ∃ record, c.state.records (.delivery sampleDeliveryId) = some record ∧
        record.value.status = .delivered ∧ record.value.deadline < record.value.nextAttemptAt := by
  have hrun : ((webhookService sampleWebhookOptions).run .free sampleWebhookDelivery
      (.initial (undelivered sampleEndpoint))).map
        (fun c ↦ (c.state.records (.delivery sampleDeliveryId)).map
          fun record ↦ (record.value.status, record.value.deadline, record.value.nextAttemptAt)) =
      some (some (.delivered, 259200, 259210)) := by
    decide +kernel
  obtain ⟨c, hc, hdelivery⟩ := Option.map_eq_some_iff.mp hrun
  obtain ⟨record, hrecord, hfields⟩ := Option.map_eq_some_iff.mp hdelivery
  obtain ⟨hstatus, hfields⟩ := Prod.mk.inj hfields
  obtain ⟨hdeadline, hnext⟩ := Prod.mk.inj hfields
  exact ⟨c, Service.leads_of_run hc, record, hrecord, hstatus, by omega⟩

theorem sampleWebhookDelivery_bounded :
    ∃ c, (webhookService sampleWebhookOptions).run .free sampleWebhookDelivery
        (.initial (undelivered sampleEndpoint)) = some c ∧
      DeliveriesBounded sampleWebhookOptions c := by
  have hrun : ((webhookService sampleWebhookOptions).run .free sampleWebhookDelivery
      (.initial (undelivered sampleEndpoint))).isSome := by decide +kernel
  obtain ⟨c, hc⟩ := Option.isSome_iff_exists.mp hrun
  exact ⟨c, hc, deliveries_bounded (Service.leads_of_run hc)⟩

end RatThings
