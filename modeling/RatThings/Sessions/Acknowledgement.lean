import RatThings.Sessions.Admission

/-!
# What an acknowledgement erases

Dispatch delivers a receipt it read before its effects, and then writes that receipt back, marked
as dispatched, into a document it reads after them. No receipt and no input is lost in this way:
the key, the digest and the commands of a receipt never change, and `dispatched` is only ever set.
The failure of the receipt is the exception, because a recovery or another dispatch may have
recorded one in the meantime, and a recovery in turn marks receipts without looking at them.

`Undisturbed` is the condition under which failures are kept as well. It is about the write and the
document it meets: no write that takes effect marks a receipt which carries a failure. The step
lemma says that a failure is replaced by such writes only, and that every other step keeps it.
-/

namespace RatThings

open Concurrent Service Setting

/-- The replacement takes effect. -/
def SessionEffect.lands (e : SessionEffect) (x : SessionChoice) (w : SessionWorld) : Bool :=
  match e with
  | .replace resource _ _ =>
    w.record.revision == resource.revision &&
      (x.fate == .acknowledged || x.fate == .unacknowledged)
  | _ => false

namespace SessionOptions

theorem record_of_not_lands {pid : ℕ} {e : SessionEffect} {x : SessionChoice} {w w' : SessionWorld}
    {a : e.Answer} (h : ¬ e.lands x w) (ha : handleSession pid e x w = some (a, w')) :
    w'.record = w.record := by
  by_cases he : e.isLocal
  · rw [handle_local pid he ha]
  cases e with
  | replace resource value purpose =>
    have hsettle : x.fate.settle (w.replace resource value purpose) w = (a, w') :=
      Option.some.inj ha
    by_cases hrev : w.record.revision = resource.revision
    · -- The revision is current, so the commit did not get through.
      simp only [SessionEffect.lands, hrev, beq_self_eq_true, Bool.true_and, Bool.or_eq_true,
        beq_iff_eq, not_or] at h
      cases hfate : x.fate <;> simp_all [Fate.settle]
    · have hnone : w.replace resource value purpose = none := by
        simp [SessionWorld.replace, Slot.put, hrev]
      rw [hnone] at hsettle
      rcases Fate.settle_cases hsettle with ⟨hnext, -⟩ | ⟨rfl, -⟩
      · cases hnext
      · rfl
  | nextIds turns messages =>
    change (if _ then _ else _) = _ at ha
    split at ha
    · cases ha
      rfl
    · cases ha
  | _ => exact absurd rfl he

/-- No write that takes effect marks a receipt that carries a failure. -/
def Undisturbed : Discipline SessionWorld SessionEffect Call SessionChoice where
  starts _ _ _ := True
  answers _ e x w := e.lands x w → ∀ stored ∈ w.record, ∀ entry ∈ stored.value.receipts.entries,
    e.marks entry.1 entry.2 → entry.2.failure = none

instance : Undisturbed.Checked :=
  ⟨fun _ _ _ ↦ .isTrue trivial, fun _ e x w ↦ inferInstanceAs (Decidable (e.lands x w →
    ∀ stored ∈ w.record, ∀ entry ∈ stored.value.receipts.entries,
      e.marks entry.1 entry.2 → entry.2.failure = none))⟩

variable {options : SessionOptions} {start : SessionWorld} {c c' : SessionConfig}

/-- In every run whatsoever, no receipt and no input is lost, and what was dispatched stays so. -/
theorem document_extends {D : Discipline SessionWorld SessionEffect Call SessionChoice}
    (hstart : options.Opening start) (hc : Reachable options.service D start c)
    (h : Leads options.service D c c') :
    ∃ resource resource', c.state.record = some resource ∧ c'.state.record = some resource' ∧
      resource.value.Extends resource'.value := by
  have hV : (options.setting D).Verified start _ _ := verified hstart.inv
  have hsound := hV.reachable hc
  obtain ⟨resource, hread, -⟩ := hsound.inv
  have hsince : c.state.Since c'.state :=
    hV.future SessionWorld.Since .refl .trans (fun _ _ _ _ hg ↦ hg.since) hsound h
  obtain ⟨resource', hread', hext⟩ := hsince.document resource hread
  exact ⟨resource, resource', hread, hread', hext⟩

/-- Every failure of the first document is in the second. -/
def KeptFailures (w w' : SessionWorld) : Prop :=
  ∀ old, w.record = some old → ∃ new, w'.record = some new ∧ ∀ key receipt failure,
    old.value.receipts.get? key = some receipt → receipt.failure = some failure →
      ∃ receipt', new.value.receipts.get? key = some receipt' ∧ receipt'.failure = some failure

theorem KeptFailures.refl (w : SessionWorld) : KeptFailures w w :=
  fun old hold ↦ ⟨old, hold, fun _ receipt _ hr hf ↦ ⟨receipt, hr, hf⟩⟩

theorem KeptFailures.trans {w₁ w₂ w₃ : SessionWorld} (h : KeptFailures w₁ w₂)
    (h' : KeptFailures w₂ w₃) : KeptFailures w₁ w₃ := by
  intro old hold
  obtain ⟨mid, hmid, hkept⟩ := h old hold
  obtain ⟨new, hnew, hkept'⟩ := h' mid hmid
  refine ⟨new, hnew, fun key receipt failure hr hf ↦ ?_⟩
  obtain ⟨receipt', hr', hf'⟩ := hkept key receipt failure hr hf
  exact hkept' key receipt' failure hr' hf'

/-- **The step lemma.** A permitted step keeps the failures there are: those it could replace are
on receipts that carry none. -/
theorem keptFailures_of_step {p : ℕ × Call} {e : SessionEffect} {x : SessionChoice}
    {w w' : SessionWorld} {a : e.Answer} (hx : Undisturbed.answers p.1 e x w)
    (ha : handleSession p.1 e x w = some (a, w')) (hg : options.Guarantee p.2 e w w') :
    KeptFailures w w' := by
  intro old hold
  obtain ⟨new, hnew, hext⟩ := hg.since.document old hold
  refine ⟨new, hnew, fun key receipt failure hr hf ↦ ?_⟩
  obtain ⟨receipt', hr', -⟩ := hext.receipts key receipt hr
  refine ⟨receipt', hr', ?_⟩
  rcases hg.failures old new hold hnew key receipt receipt' hr hr' with hsame | hmarks
  · rw [hsame, hf]
  by_cases hlands : e.lands x w
  · have hnone : receipt.failure = none :=
      hx hlands old hold (key, receipt) (OrderedMap.get?_eq_some.mp hr) hmarks
    rw [hnone] at hf
    cases hf
  · rw [record_of_not_lands hlands ha, hold] at hnew
    cases hnew
    rw [hr] at hr'
    cases hr'
    exact hf

/-- Between runs of dispatch, of recovery and of the other callers nothing is erased, as long as no
write marks a receipt that carries a failure. -/
theorem acknowledgement_erases_nothing (hstart : options.Opening start)
    (hc : Reachable options.service Undisturbed start c)
    (h : Leads options.service Undisturbed c c') :
    ∃ resource resource', c.state.record = some resource ∧ c'.state.record = some resource' ∧
      (∀ key receipt, resource.value.receipts.get? key = some receipt →
        ∃ receipt', resource'.value.receipts.get? key = some receipt' ∧
          receipt'.commands = receipt.commands ∧
          (receipt.dispatched → receipt'.dispatched) ∧
          ∀ failure, receipt.failure = some failure → receipt'.failure = some failure) ∧
      TurnsExtend resource.value.turns resource'.value.turns := by
  obtain ⟨resource, resource', hread, hread', hext⟩ := document_extends hstart hc h
  have hV : (options.setting Undisturbed).Verified start _ _ := verified hstart.inv
  have hkept : KeptFailures c.state c'.state :=
    hV.future KeptFailures .refl .trans (fun {p _ _ _ _ _} _ _ hx ha hg ↦
      keptFailures_of_step (p := p) hx ha hg) (hV.reachable hc) h
  refine ⟨resource, resource', hread, hread', fun key receipt hr ↦ ?_, hext.turns⟩
  obtain ⟨receipt', hr', hfollows⟩ := hext.receipts key receipt hr
  refine ⟨receipt', hr', hfollows.commands, hfollows.dispatched, fun failure hf ↦ ?_⟩
  -- Both facts are about the document at the end, so they speak of one receipt.
  obtain ⟨new, hnew, hfailures⟩ := hkept resource hread
  rw [hread'] at hnew
  cases hnew
  obtain ⟨receipt'', hr'', hf'⟩ := hfailures key receipt failure hr hf
  rw [hr'] at hr''
  cases hr''
  exact hf'

end SessionOptions

/-! ## Two runs

In the first, recovery is exhausted while a dispatch is delivering the start of a Turn. The dispatch
then acknowledges the receipt as it had read it. In the second there is no dispatch. -/

/-- Recovery from beginning to end: no Turn was admitted. -/
def sampleRecovery : List (Event SessionOptions.Call SessionChoice) :=
  [.start 2 .recoverPi, .resume 2 {}, .resume 2 { exhausted := some [] }, .resume 2 {},
    .resume 2 {},
    .resume 2 {}]

/-- Dispatch up to the point where the start was delivered. -/
def sampleDelivery : List (Event SessionOptions.Call SessionChoice) :=
  [.start 1 .dispatch, .resume 1 {}, .resume 1 {}, .resume 1 {}, .resume 1 {}]

/-- The failures of the receipts in a document. -/
def receiptFailures (w : SessionWorld) : List (Option ReceiptFailure) :=
  w.record.elim [] fun resource ↦ resource.value.receipts.entries.map (·.2.failure)

theorem acknowledgement_erases_failure :
    ∃ c c', Service.Reachable sampleSessionOptions.service .free sampleSession c ∧
      Service.Leads sampleSessionOptions.service .free c c' ∧
      receiptFailures c.state = [some recoveryFailure] ∧ receiptFailures c'.state = [none] := by
  have hrun : ((sampleSessionOptions.service.run .free
      (sampleAdmission ++ sampleDelivery ++ sampleRecovery) (.initial sampleSession)).map fun c ↦
        (receiptFailures c.state, (sampleSessionOptions.service.run .free
          [.resume 1 {}, .resume 1 {}] c).map fun c' ↦ receiptFailures c'.state)) =
      some ([some recoveryFailure], some [none]) := by decide
  obtain ⟨c, hc, hfields⟩ := Option.map_eq_some_iff.mp hrun
  obtain ⟨hbefore, hafter⟩ := Prod.mk.inj hfields
  obtain ⟨c', hc', herased⟩ := Option.map_eq_some_iff.mp hafter
  exact ⟨c, c', Service.leads_of_run hc, Service.leads_of_run hc', hbefore, herased⟩

/-- The failure that recovery recorded stays on its receipt. -/
theorem sampleRecovery_keeps_failure :
    ∃ c, sampleSessionOptions.service.run SessionOptions.Undisturbed
        (sampleAdmission ++ sampleRecovery) (.initial sampleSession) = some c ∧
      ∀ c', Service.Leads sampleSessionOptions.service SessionOptions.Undisturbed c c' →
        ∃ resource receipt, c'.state.record = some resource ∧
          resource.value.receipts.get? "receipt:key" = some receipt ∧
          receipt.failure = some recoveryFailure := by
  have hrun : (sampleSessionOptions.service.run SessionOptions.Undisturbed
      (sampleAdmission ++ sampleRecovery) (.initial sampleSession)).map (fun c ↦
        c.state.record.map fun resource ↦
          (resource.value.receipts.get? "receipt:key").map (·.failure)) =
      some (some (some (some recoveryFailure))) := by decide
  obtain ⟨c, hc, hfailure⟩ := Option.map_eq_some_iff.mp hrun
  obtain ⟨resource, hread, hreceipt⟩ := Option.map_eq_some_iff.mp hfailure
  obtain ⟨receipt, hget, hf⟩ := Option.map_eq_some_iff.mp hreceipt
  refine ⟨c, hc, fun c' h ↦ ?_⟩
  obtain ⟨old, new, hold, hnew, hreceipts, -⟩ := SessionOptions.acknowledgement_erases_nothing
    (.empty ..) (Service.leads_of_run hc) h
  rw [hread] at hold
  cases hold
  obtain ⟨receipt', hget', -, -, hkept⟩ := hreceipts _ receipt hget
  exact ⟨new, receipt', hnew, hget', hkept _ hf⟩

end RatThings
