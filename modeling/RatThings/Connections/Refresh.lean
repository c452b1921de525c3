import Mathlib.Data.List.Nodup
import RatThings.Connections.Service

/-!
# Refreshes of one connection

A refresh reads the credential of its connection, takes the lock, exchanges the refresh token at the
authorization server and replaces the stored credential. The credential was read before the lock was
taken, and the vault is written without comparing. So a refresh works from the stored credential
exactly as long as two things hold: the credential it has read is still stored when it gets the
lock, and nothing replaces it while the lock is held. The lock sees to that among refreshes; a
rotation does not take it.

## The runs

`refreshDiscipline` admits the runs in which both hold: a lock expires only when its holder has
stopped, a rotation happens only while no holder runs, and a call gets the lock only while the
credential is stored that it has read. The last one is about the state before the step, so it is no
promise about what the refresh does.

## The invariant

`ConnectionWorld.Locked` says that locks are held by those they were issued to, and that the
credential belongs to one connection. What a holder knows is `HoldsLock`: the lock is its own and
the credential it has read is stored, or it does not run any more. `RefreshStep` is what the steps
of the others leave to it. On the way to the vault, `TokensFrom` keeps account of where every
refresh token of the new credential comes from.
-/

namespace RatThings

open Concurrent Prog Service Setting

/-! ## Fields of a credential

A credential of each kind has its refresh token in a field of its own. An exchange replaces the one
of the flow it started from, and leaves the others as they were. -/

/-- The fields of a refresh token and of other data have different names. -/
theorem tokenField_ne {start start' field : String}
    (hlength : field.toList.length ≤ "refresh_token".toList.length)
    (hsuffix : ¬field.toList <:+ "refresh_token".toList) :
    tokenField start field ≠ refreshField start' := by
  have hends : ∀ start name : String, name.toList <:+ (tokenField start name).toList := by
    intro start name
    unfold tokenField
    split
    · exact List.suffix_refl _
    · rw [String.toList_append, String.toList_append]
      exact List.suffix_append _ _
  intro heq
  have hfield : field.toList <:+ (refreshField start').toList := heq ▸ hends start field
  exact hsuffix (List.suffix_of_suffix_length_le hfield (hends start' "refresh_token") hlength)

theorem lookup_textFields_of_ne {fields : List (String × Option String)} {name : String}
    (h : ∀ field ∈ fields, field.1 ≠ name) : (textFields fields).lookup name = none := by
  rw [List.lookup_eq_none_iff]
  intro entry hentry
  obtain ⟨field, hfield, hmap⟩ := List.mem_filterMap.mp hentry
  obtain ⟨text, -, rfl⟩ := Option.map_eq_some_iff.mp hmap
  simpa using (h field hfield).symm

/-- A refresh of one token leaves the other refresh tokens alone. -/
theorem field_refreshedCredential_of_ne {start start' : String} {response : TokenResponse}
    {credential : IntegrationCredential} (h : refreshField start ≠ refreshField start') :
    (refreshedCredential start response credential).field (refreshField start') =
      credential.field (refreshField start') := by
  have hresponse : (tokenCredential start response).lookup (refreshField start') = none := by
    refine lookup_textFields_of_ne fun field hfield ↦ ?_
    simp only [List.mem_cons, List.not_mem_nil, or_false] at hfield
    obtain rfl | rfl | rfl | rfl | rfl := hfield
    · exact tokenField_ne (by decide) (by decide)
    · exact h
    · exact tokenField_ne (by decide) (by decide)
    · exact tokenField_ne (by decide) (by decide)
    · exact tokenField_ne (by decide) (by decide)
  have hhead : (refreshField start' == refreshField start) = false := by simpa using h.symm
  simp [IntegrationCredential.field, refreshedCredential, List.lookup_cons, hhead,
    List.lookup_append, hresponse]

theorem field_refreshedCredential_self (start : String) (response : TokenResponse)
    (credential : IntegrationCredential) :
    (refreshedCredential start response credential).field (refreshField start) =
      (response.refreshToken.filter (· ≠ "") <|> credential.field (refreshField start)) := by
  have hfield : (refreshedCredential start response credential).field (refreshField start) =
      (some ((response.refreshToken.filter (· ≠ "") <|>
        credential.field (refreshField start)).getD "")).filter (· ≠ "") := by
    simp [IntegrationCredential.field, refreshedCredential]
  rw [hfield]
  cases hnew : response.refreshToken.filter (· ≠ "") with
  | some token =>
    have hne : token ≠ "" := by simpa using (Option.filter_eq_some_iff.mp hnew).2
    simp [hne]
  | none =>
    cases hold : credential.field (refreshField start) with
    | none => simp
    | some token =>
      have hne : token ≠ "" := by simpa using (Option.filter_eq_some_iff.mp hold).2
      simp [hne]

/-- What a refresh may make of a credential. -/
inductive RefreshedFrom (base : IntegrationCredential) : IntegrationCredential → Prop
  | base : RefreshedFrom base base
  | token (start : String) (response : TokenResponse) {credential : IntegrationCredential} :
      RefreshedFrom base credential →
      RefreshedFrom base (refreshedCredential start response credential)

/-- Every refresh token is that of the base, or was granted to the caller. -/
def TokensFrom (pid : ℕ) (base credential : IntegrationCredential) (w : ConnectionWorld) : Prop :=
  ∀ start, credential.field (refreshField start) = base.field (refreshField start) ∨
    ∃ token, credential.field (refreshField start) = some token ∧ (pid, token) ∈ w.granted

theorem TokensFrom.mono {pid : ℕ} {base credential : IntegrationCredential}
    {w w' : ConnectionWorld} (h : TokensFrom pid base credential w)
    (hgranted : w.granted ⊆ w'.granted) : TokensFrom pid base credential w' :=
  fun start ↦ (h start).imp_right fun ⟨token, hfield, hmem⟩ ↦ ⟨token, hfield, hgranted hmem⟩

theorem TokensFrom.refreshed {pid : ℕ} {base credential : IntegrationCredential}
    {w : ConnectionWorld} {start : String} {response : TokenResponse}
    (h : TokensFrom pid base credential w)
    (hresponse : ∀ token, response.refreshToken = some token → (pid, token) ∈ w.granted) :
    TokensFrom pid base (refreshedCredential start response credential) w := by
  intro start'
  by_cases hfield : refreshField start = refreshField start'
  · rw [← hfield, field_refreshedCredential_self]
    cases htoken : response.refreshToken.filter (· ≠ "") with
    | none => simpa [hfield] using h start'
    | some token =>
      exact .inr ⟨token, rfl, hresponse token (Option.filter_eq_some_iff.mp htoken).1⟩
  · rw [field_refreshedCredential_of_ne hfield]
    exact h start'

/-! ## Runs in which refreshes are not crossed -/

/-- Reads and rotations of one connection. A call that was interrupted does not run any more: a lock
expires only when its holder has stopped, and a rotation happens only while no holder runs. And a
call gets the lock only while the credential is stored that it has read. -/
def refreshDiscipline (connectionId reference : String) :
    Discipline ConnectionWorld ConnectionEffect ConnectionCall ConnectionChoice where
  starts _ call _ :=
    match call with
    | .readRecord reference' connection =>
      reference' = reference ∧ connection.connectionId = connectionId
    | .rotate .. => True
    | _ => False
  answers pid e x w :=
    pid ∉ w.interrupted ∧
      match e with
      | .acquireRefreshLock id _ _ read =>
        x.fate = .acknowledged → w.Lockable id (x.clock / 1000) → w.stored reference = some read
      | _ => True

/-! ## The invariant, and what a step may do -/

structure ConnectionWorld.Locked (connectionId reference : String) (w : ConnectionWorld) :
    Prop where
  issued : (w.issued.map Prod.snd).Nodup
  locked : ∀ lock, w.locks connectionId = some lock → (lock.holder, lock.token) ∈ w.issued
  /-- The credential belongs to this connection only. -/
  bound : ∀ id binding, w.bindings id = some binding →
    binding.connectionId = id ∧ (binding.reference = reference → id = connectionId)

/-- A step of the call `pid` takes neither the lock nor the credential from another one. -/
structure RefreshStep (connectionId reference : String) (pid : ℕ) (w w' : ConnectionWorld) :
    Prop where
  issued : w.issued ⊆ w'.issued
  granted : w.granted ⊆ w'.granted
  interrupted : w.interrupted ⊆ w'.interrupted
  held : ∀ lock, w.locks connectionId = some lock → lock.holder ≠ pid →
    (w'.locks connectionId = some lock ∧ w'.stored reference = w.stored reference) ∨
      lock.holder ∈ w'.interrupted

/-- The request works from the credential that is stored. -/
def ConnectionEffect.WorksFromStored (pid : ℕ) (e : ConnectionEffect) (w : ConnectionWorld) :
    Prop :=
  match e with
  | .exchangeToken reference field token => ∃ credential, w.stored reference = some credential ∧
      (token = (credential.field field).getD "undefined" ∨ (pid, token) ∈ w.granted)
  | .replaceSecret reference value (.refresh _ base) =>
    w.stored reference = some base ∧ RefreshedFrom base value
  | _ => True

def refreshSetting (registry : ConnectionRegistry) (connectionId reference : String) :
    Setting ConnectionWorld ConnectionEffect ConnectionEffect.Answer ConnectionFailure
      ConnectionResult ConnectionCall ConnectionChoice where
  service := connectionService registry
  discipline := refreshDiscipline connectionId reference
  inv := ConnectionWorld.Locked connectionId reference
  guar p e w w' := RefreshStep connectionId reference p.1 w w' ∧ e.WorksFromStored p.1 w

section

variable {registry : ConnectionRegistry} {connectionId reference : String}
  {p : ℕ × ConnectionCall} {P : ConnectionWorld → Prop} {w w' : ConnectionWorld}

/-- A step that leaves the locks, the secrets and the bindings alone. -/
theorem RefreshStep.of_same {pid : ℕ} (hlocks : w'.locks = w.locks)
    (hsecrets : w'.secrets = w.secrets)
    (hissued : w.issued ⊆ w'.issued) (hgranted : w.granted ⊆ w'.granted)
    (hinterrupted : w'.interrupted = w.interrupted) :
    RefreshStep connectionId reference pid w w' where
  issued := hissued
  granted := hgranted
  interrupted := hinterrupted ▸ List.Subset.refl _
  held lock hlock _ := by
    refine .inl ⟨?_, ?_⟩
    · rw [hlocks, hlock]
    · rw [ConnectionWorld.stored, ConnectionWorld.stored, hsecrets]

theorem RefreshStep.refl (pid : ℕ) (w : ConnectionWorld) :
    RefreshStep connectionId reference pid w w :=
  .of_same rfl rfl (List.Subset.refl _) (List.Subset.refl _) rfl

/-- Requests that touch neither locks nor secrets nor bindings. -/
def ConnectionEffect.Quiet : ConnectionEffect → Prop
  | .putConnectionBundle .. | .putCredentialBinding _ | .createSecret .. | .replaceSecret ..
  | .revokeSecret _ | .acquireRefreshLock .. | .releaseRefreshLock .. | .random => False
  | _ => True

/-- What a quiet request leaves as it was. -/
structure QuietStep (w w' : ConnectionWorld) : Prop where
  locks : w'.locks = w.locks
  secrets : w'.secrets = w.secrets
  bindings : w'.bindings = w.bindings
  issued : w'.issued = w.issued
  granted : w.granted ⊆ w'.granted
  interrupted : w'.interrupted = w.interrupted

theorem quietStep_of_handle {e : ConnectionEffect} {x : ConnectionChoice} {a : e.Answer} {pid : ℕ}
    (he : e.Quiet) (h : handleConnection pid e x w = some (a, w')) : QuietStep w w' := by
  have hsame : QuietStep w w := ⟨rfl, rfl, rfl, rfl, List.Subset.refl _, rfl⟩
  cases e <;> try contradiction
  case putConnection connection =>
    rcases Fate.settle_cases (Option.some.inj h) with ⟨hnext, -⟩ | ⟨rfl, -⟩
    · rw [ConnectionWorld.putConnection] at hnext
      split at hnext
      · cases hnext
        exact ⟨rfl, rfl, rfl, rfl, List.Subset.refl _, rfl⟩
      · cases hnext
    · exact hsame
  case putHealth id health =>
    rcases Fate.settle_cases (Option.some.inj h) with ⟨hnext, -⟩ | ⟨rfl, -⟩
    · cases hnext
      exact ⟨rfl, rfl, rfl, rfl, List.Subset.refl _, rfl⟩
    · exact hsame
  case exchangeToken reference' field token =>
    cases h
    exact ⟨rfl, rfl, rfl, rfl, List.subset_append_left _ _, rfl⟩
  case getConnection id =>
    cases h
    exact ⟨rfl, rfl, rfl, rfl, List.Subset.refl _, rfl⟩
  all_goals
    cases h
    exact hsame

theorem ConnectionWorld.Locked.quiet (hw : w.Locked connectionId reference) (h : QuietStep w w') :
    w'.Locked connectionId reference where
  issued := h.issued ▸ hw.issued
  locked := by
    rw [h.locks, h.issued]
    exact hw.locked
  bound := by
    rw [h.bindings]
    exact hw.bound

theorem refreshStep_of_quiet {pid : ℕ} (h : QuietStep w w') :
    RefreshStep connectionId reference pid w w' :=
  .of_same h.locks h.secrets (h.issued ▸ List.Subset.refl _) h.granted h.interrupted

/-- A quiet request, and what is known of it where it is answered. -/
theorem meets_quiet {e : ConnectionEffect} {Q : e.Answer → ConnectionWorld → Prop}
    (he : e.Quiet) (hP : (refreshSetting registry connectionId reference).Stable p P)
    (hworks : ∀ w, w.Locked connectionId reference → P w → p.1 ∉ w.interrupted →
      e.WorksFromStored p.1 w)
    (hQ : ∀ w x a w', w.Locked connectionId reference → P w →
      handleConnection p.1 e x w = some (a, w') → QuietStep w w' → Q a w') :
    (refreshSetting registry connectionId reference).Meets p P (effect e) Q fun _ _ ↦ True := by
  refine meets_perform hP fun w x a w' hw hp hx ha ↦ ?_
  have hquiet : QuietStep w w' := quietStep_of_handle he ha
  exact ⟨hw.quiet hquiet, ⟨refreshStep_of_quiet hquiet, hworks w hw hp hx.1⟩,
    hQ w x a w' hw hp ha hquiet⟩

theorem yields_quiet {e : ConnectionEffect} (he : e.Quiet)
    (hworks : ∀ w, e.WorksFromStored p.1 w) :
    (refreshSetting registry connectionId reference).Yields p (effect e) fun _ ↦ True :=
  meets_quiet he stable_true (fun w _ _ _ ↦ hworks w) fun _ _ _ _ _ _ _ _ ↦ trivial

/-! ## The lock

Two facts about a lock are stable: that its token was issued to a caller, and that a holder which
still runs holds it. -/

/-- The call holds the lock, and the credential it has read is the stored one; or it does not run
any more. -/
def HoldsLock (connectionId reference : String) (pid : ℕ) (token : String)
    (base : IntegrationCredential) (w : ConnectionWorld) : Prop :=
  pid ∈ w.interrupted ∨
    ((∃ expiresAt, w.locks connectionId = some ⟨token, expiresAt, pid⟩) ∧
      w.stored reference = some base)

theorem stable_holdsLock {token : String} {base : IntegrationCredential} :
    (refreshSetting registry connectionId reference).Stable p
      (HoldsLock connectionId reference p.1 token base) := by
  intro q e w w' hne _ _ hguar h
  rcases h with hstopped | ⟨⟨expiresAt, hlock⟩, hstored⟩
  · exact .inl (hguar.1.interrupted hstopped)
  · rcases hguar.1.held _ hlock (Ne.symm hne) with ⟨hlock', hstored'⟩ | hstopped
    · exact .inr ⟨⟨expiresAt, hlock'⟩, hstored'.trans hstored⟩
    · exact .inl hstopped

theorem HoldsLock.quiet {token : String} {base : IntegrationCredential}
    (h : HoldsLock connectionId reference p.1 token base w) (hquiet : QuietStep w w') :
    HoldsLock connectionId reference p.1 token base w' := by
  rw [HoldsLock, hquiet.locks, hquiet.interrupted, ConnectionWorld.stored, hquiet.secrets]
  exact h

/-- The id is one that this call has drawn. -/
def Drawn (pid : ℕ) (token : String) (w : ConnectionWorld) : Prop := (pid, token) ∈ w.issued

theorem permanent_drawn (pid : ℕ) (token : String) :
    (refreshSetting registry connectionId reference).Permanent (Drawn pid token) :=
  fun _ _ _ _ _ _ hguar h ↦ hguar.1.issued h

theorem meets_random :
    (refreshSetting registry connectionId reference).Meets p (fun _ ↦ True) (effect .random)
      (fun token ↦ Drawn p.1 token) fun _ _ ↦ True := by
  refine meets_perform stable_true fun w x a w' hw _ _ ha ↦ ?_
  simp only [refreshSetting, connectionService, handleConnection] at ha
  split at ha
  · next hfresh =>
    cases ha
    refine ⟨⟨?_, fun lock hlock ↦ ?_, hw.bound⟩, ⟨?_, trivial⟩, ?_⟩
    · rw [List.map_append]
      refine List.nodup_append.mpr ⟨hw.issued, by simp, fun id hid id' hid' heq ↦ ?_⟩
      obtain rfl : id' = x.text := by simpa using hid'
      exact hfresh (heq ▸ hid)
    · exact List.mem_append_left _ (hw.locked lock hlock)
    · exact .of_same rfl rfl (List.subset_append_left _ _) (List.Subset.refl _) rfl
    · exact List.mem_append_right _ List.mem_cons_self
  · cases ha

/-- Who gets the lock holds it, and has read what is stored. -/
theorem meets_acquire {token : String} {expiresAt : ℕ} {read : IntegrationCredential} :
    (refreshSetting registry connectionId reference).Meets p (Drawn p.1 token)
      (effect (.acquireRefreshLock connectionId token expiresAt read))
      (fun r w ↦ Drawn p.1 token w ∧
        (r = .done → HoldsLock connectionId reference p.1 token read w)) fun _ _ ↦ True := by
  refine meets_perform (permanent_drawn _ _).stable fun w x a w' hw hdrawn hx ha ↦ ?_
  have hrefused : ∀ r : Reply, r ≠ .done → ConnectionWorld.Locked connectionId reference w ∧
      (RefreshStep connectionId reference p.1 w w ∧ True) ∧ Drawn p.1 token w ∧
        (r = .done → HoldsLock connectionId reference p.1 token read w) :=
    fun r hr ↦ ⟨hw, ⟨.refl p.1 w, trivial⟩, hdrawn, fun h ↦ absurd h hr⟩
  rcases Fate.settle_cases (Option.some.inj ha) with ⟨hnext, -⟩ | ⟨rfl, hne⟩
  · rw [ConnectionWorld.acquireRefreshLock] at hnext
    split at hnext
    · next hlockable =>
      obtain rfl := Option.some.inj hnext
      refine ⟨⟨hw.issued, fun lock hlock ↦ ?_, hw.bound⟩, ⟨⟨List.Subset.refl _, List.Subset.refl _,
        List.subset_append_left _ _, fun lock hlock hne ↦ .inr ?_⟩, trivial⟩, hdrawn,
          fun hdone ↦ ?_⟩
      · simp only [Function.update_self, Option.some.injEq] at hlock
        exact hlock ▸ hdrawn
      · -- The lock that was there has expired.
        refine List.mem_append_right _ ?_
        simp [ConnectionWorld.holder, hlock]
      · refine .inr ⟨⟨expiresAt, Function.update_self ..⟩, ?_⟩
        exact hx.2 (Fate.acknowledged_of_done (hdone ▸ Option.some.inj ha)) hlockable
    · cases hnext
  · exact hrefused a hne

/-- Ids are drawn once, so a call deletes no lock but its own. -/
theorem meets_release {token : String} :
    (refreshSetting registry connectionId reference).Meets p (Drawn p.1 token)
      (effect (.releaseRefreshLock connectionId token)) (fun _ _ ↦ True) fun _ _ ↦ True := by
  refine meets_perform (permanent_drawn _ _).stable fun w x a w' hw hdrawn _ ha ↦ ?_
  rcases Fate.settle_cases (Option.some.inj ha) with ⟨hnext, -⟩ | ⟨rfl, -⟩
  · obtain rfl := Option.some.inj hnext
    rw [ConnectionWorld.releaseRefreshLock]
    split
    · next htoken =>
      refine ⟨⟨hw.issued, fun lock hlock ↦ ?_, hw.bound⟩, ⟨⟨List.Subset.refl _, List.Subset.refl _,
        List.Subset.refl _, fun lock hlock hne ↦ ?_⟩, trivial⟩, trivial⟩
      · exact absurd hlock (by simp)
      · -- Another call's lock would have a token that this call has drawn.
        have hsame : lock.token = token := by simpa [hlock] using htoken
        have heq : (lock.holder, lock.token) = (p.1, token) :=
          List.inj_on_of_nodup_map hw.issued (hw.locked lock hlock) hdrawn hsame
        exact absurd (Prod.mk.inj heq).1 hne
    · exact ⟨hw, ⟨.refl p.1 w, trivial⟩, trivial⟩
  · exact ⟨hw, ⟨.refl p.1 _, trivial⟩, trivial⟩

/-! ## The credential

Only the holder of the lock replaces the secret of the connection, or a rotation while nobody holds
it. -/

theorem replaceSecret_eq_some {value : IntegrationCredential} {reference' : String}
    {purpose : ReplacePurpose} (h : w.replaceSecret reference' value purpose = some w') :
    ∃ secret callers, w' = (w.setSecret reference' secret).interrupt callers ∧
      ∀ id, purpose = .rotate id → callers = w.holder id := by
  rw [ConnectionWorld.replaceSecret] at h
  split at h
  · cases h
  · next secret _ =>
    split at h
    · cases h
    · refine ⟨⟨value, false, secret.history ++ [value]⟩, ?_⟩
      split at h
      · refine ⟨[], ?_, fun id hid ↦ by cases hid⟩
        rw [← Option.some.inj h, ConnectionWorld.interrupt, List.append_nil]
      · next id =>
        refine ⟨w.holder id, (Option.some.inj h).symm, fun id' hid' ↦ ?_⟩
        cases hid'
        rfl

theorem stored_setSecret_of_ne {reference' : String} {secret : Secret}
    (h : reference' ≠ reference) :
    (w.setSecret reference' secret).stored reference = w.stored reference := by
  simp only [ConnectionWorld.stored, ConnectionWorld.setSecret]
  rw [Function.update_of_ne h.symm]

/-- A call that holds the lock replaces the credential from which it has worked. -/
theorem meets_replace_refresh {token : String} {base value : IntegrationCredential}
    (hvalue : RefreshedFrom base value) :
    (refreshSetting registry connectionId reference).Meets p
      (HoldsLock connectionId reference p.1 token base)
      (effect (.replaceSecret reference value (.refresh connectionId base)))
      (fun _ _ ↦ True) fun _ _ ↦ True := by
  refine meets_perform stable_holdsLock fun w x a w' hw hholds hx ha ↦ ?_
  obtain ⟨⟨expiresAt, hown⟩, hstored⟩ := hholds.resolve_left hx.1
  have hworks : ConnectionEffect.WorksFromStored p.1
      (.replaceSecret reference value (.refresh connectionId base)) w := ⟨hstored, hvalue⟩
  rcases Fate.settle_cases (Option.some.inj ha) with ⟨hnext, -⟩ | ⟨rfl, -⟩
  · obtain ⟨secret, callers, rfl, -⟩ := replaceSecret_eq_some hnext
    refine ⟨⟨hw.issued, hw.locked, hw.bound⟩, ⟨⟨List.Subset.refl _, List.Subset.refl _,
      List.subset_append_left _ _, fun lock hlock hne ↦ absurd ?_ hne⟩, hworks⟩, trivial⟩
    obtain rfl := Option.some.inj (hlock.symm.trans hown)
    rfl
  · exact ⟨hw, ⟨.refl p.1 _, hworks⟩, trivial⟩

/-- A rotation stops the call that holds the lock. -/
theorem yields_replace_rotate {id reference' : String} {value : IntegrationCredential}
    (hid : reference' = reference → id = connectionId) :
    (refreshSetting registry connectionId reference).Yields p
      (effect (.replaceSecret reference' value (.rotate id))) fun _ ↦ True := by
  refine yields_perform fun w x a w' hw _ _ ha ↦ ?_
  rcases Fate.settle_cases (Option.some.inj ha) with ⟨hnext, -⟩ | ⟨rfl, -⟩
  · obtain ⟨secret, callers, rfl, hcallers⟩ := replaceSecret_eq_some hnext
    obtain rfl := hcallers id rfl
    refine ⟨⟨hw.issued, hw.locked, hw.bound⟩, ⟨⟨List.Subset.refl _, List.Subset.refl _,
      List.subset_append_left _ _, fun lock hlock hne ↦ ?_⟩, trivial⟩, trivial⟩
    by_cases hreference : reference' = reference
    · refine .inr (List.mem_append_right _ ?_)
      simp [ConnectionWorld.holder, hid hreference, hlock]
    · exact .inl ⟨hlock, stored_setSecret_of_ne hreference⟩
  · exact ⟨hw, ⟨.refl p.1 _, trivial⟩, trivial⟩

theorem yields_putCredentialBinding {binding : IntegrationCredentialBinding}
    (hbinding : binding.reference = reference → binding.connectionId = connectionId) :
    (refreshSetting registry connectionId reference).Yields p
      (effect (.putCredentialBinding binding)) fun _ ↦ True := by
  refine yields_perform fun w x a w' hw _ _ ha ↦ ?_
  rcases Fate.settle_cases (Option.some.inj ha) with ⟨hnext, -⟩ | ⟨rfl, -⟩
  · obtain rfl := Option.some.inj hnext
    refine ⟨⟨hw.issued, hw.locked, fun id other hother ↦ ?_⟩, ⟨.of_same rfl rfl
      (List.Subset.refl _) (List.Subset.refl _) rfl, trivial⟩, trivial⟩
    simp only [ConnectionWorld.setBinding, Function.update_apply] at hother
    split at hother
    · next hid =>
      obtain rfl := Option.some.inj hother
      exact ⟨hid.symm, fun h ↦ hid.trans (hbinding h)⟩
    · exact hw.bound id other hother
  · exact ⟨hw, ⟨.refl p.1 _, trivial⟩, trivial⟩

/-! ## Programs

The programs of the service one after another, down to the two calls that touch a credential. -/

theorem yields_clock :
    (refreshSetting registry connectionId reference).Yields p (effect .now) fun _ ↦ True :=
  yields_quiet trivial fun _ ↦ trivial

theorem yields_someNeedsRefresh (credential : IntegrationCredential) (starts : List String) :
    (refreshSetting registry connectionId reference).Yields p
      (OAuthBroker.someNeedsRefresh registry credential starts) fun _ ↦ True := by
  induction starts with
  | nil => exact yields_ret trivial
  | cons start starts ih =>
    refine yields_clock.bind fun now _ ↦ ?_
    split
    · exact yields_ret trivial
    · exact ih

theorem yields_requireRefreshTokens (connection : IntegrationConnection)
    (credential : IntegrationCredential) (starts : List String) :
    (refreshSetting registry connectionId reference).Yields p
      (OAuthBroker.requireRefreshTokens registry connection credential starts) fun _ ↦ True := by
  induction starts with
  | nil => exact yields_ret trivial
  | cons start starts ih =>
    refine yields_clock.bind fun now _ ↦ ?_
    split
    · exact yields_raise
    · exact ih

theorem yields_readSecret (reference' : String) :
    (refreshSetting registry connectionId reference).Yields p
      (attempted (effect (.readSecret reference'))) fun _ ↦ True :=
  yields_attempted (yields_quiet trivial fun _ ↦ trivial)

theorem yields_awaitRefresh (reference' : String) (starts : List String) (attempts : ℕ) :
    (refreshSetting registry connectionId reference).Yields p
      (OAuthBroker.awaitRefresh registry reference' starts attempts) fun _ ↦ True := by
  induction attempts with
  | zero => exact yields_raise
  | succ attempts ih =>
    refine (yields_quiet (e := .sleep) trivial fun _ ↦ trivial).bind fun _ _ ↦ ?_
    refine (yields_readSecret reference').bind fun refreshed _ ↦ ?_
    refine (yields_someNeedsRefresh refreshed starts).bind fun needs _ ↦ ?_
    split
    · exact ih
    · exact yields_ret trivial

/-- The call works on a refresh: it holds the lock, and its refresh tokens are those of the stored
credential or were granted to it. -/
def Working (connectionId reference : String) (pid : ℕ) (token : String)
    (base credential : IntegrationCredential) (w : ConnectionWorld) : Prop :=
  HoldsLock connectionId reference pid token base w ∧ TokensFrom pid base credential w

theorem stable_working {token : String} {base credential : IntegrationCredential} :
    (refreshSetting registry connectionId reference).Stable p
      (Working connectionId reference p.1 token base credential) :=
  stable_holdsLock.and fun _ _ _ _ _ _ _ hguar h ↦ h.mono hguar.1.granted

theorem Working.quiet {token : String} {base credential : IntegrationCredential}
    (h : Working connectionId reference p.1 token base credential w) (hquiet : QuietStep w w') :
    Working connectionId reference p.1 token base credential w' :=
  ⟨h.1.quiet hquiet, h.2.mono hquiet.granted⟩

theorem meets_now_working {token : String} {base credential : IntegrationCredential} :
    (refreshSetting registry connectionId reference).Meets p
      (Working connectionId reference p.1 token base credential) (effect .now)
      (fun _ ↦ Working connectionId reference p.1 token base credential) fun _ _ ↦ True :=
  meets_quiet trivial stable_working (fun _ _ _ _ ↦ trivial) fun _ _ _ _ _ h _ hquiet ↦
    h.quiet hquiet

/-- An exchange sends a refresh token that is stored, or that it has just been given. -/
theorem meets_exchangeToken {token start : String} {base credential : IntegrationCredential} :
    (refreshSetting registry connectionId reference).Meets p
      (Working connectionId reference p.1 token base credential)
      (effect (.exchangeToken reference (refreshField start)
        ((credential.field (refreshField start)).getD "undefined")))
      (fun r w ↦ ∀ response, r = .ok response → Working connectionId reference p.1 token base
        (refreshedCredential start response credential) w) fun _ _ ↦ True := by
  refine meets_quiet trivial stable_working (fun w _ h hrunning ↦ ?_)
    fun w x a w' _ h ha hquiet response hok ↦ ?_
  · obtain ⟨-, hstored⟩ := h.1.resolve_left hrunning
    refine ⟨base, hstored, ?_⟩
    obtain hfield | ⟨given, hfield, hgiven⟩ := h.2 start
    · exact .inl (by rw [hfield])
    · exact .inr (by rwa [hfield])
  · refine ⟨h.1.quiet hquiet, (h.2.mono hquiet.granted).refreshed fun given hgiven ↦ ?_⟩
    cases ha
    rw [ConnectionChoice.result] at hok
    split at hok
    · cases hok
    · obtain rfl := Except.ok.inj hok
      exact List.mem_append_right _ (by simp [hgiven])

theorem meets_refreshTokens {token : String} {base : IntegrationCredential} (starts : List String) :
    ∀ credential, RefreshedFrom base credential →
    (refreshSetting registry connectionId reference).Meets p
      (Working connectionId reference p.1 token base credential)
      (OAuthBroker.refreshTokens registry reference credential starts)
      (fun replacement w ↦ RefreshedFrom base replacement ∧
        HoldsLock connectionId reference p.1 token base w) fun _ _ ↦ True := by
  induction starts with
  | nil =>
    intro credential hcredential
    exact meets_ret fun w _ h ↦ ⟨hcredential, h.1⟩
  | cons start starts ih =>
    intro credential hcredential
    refine Meets.bind meets_now_working fun now ↦ ?_
    split
    · refine Meets.bind meets_now_working fun _ ↦ ?_
      refine Meets.bind (meets_attempted meets_exchangeToken) fun response ↦ ?_
      split
      · exact meets_raise fun _ _ _ ↦ trivial
      · exact ih _ (.token start response hcredential)
    · exact ih credential hcredential

theorem meets_refresh {connection : IntegrationConnection} {token : String}
    {credential : IntegrationCredential} (hid : connection.connectionId = connectionId) :
    (refreshSetting registry connectionId reference).Meets p
      (HoldsLock connectionId reference p.1 token credential)
      (OAuthBroker.refresh registry reference connection credential) (fun _ _ ↦ True)
      fun _ _ ↦ True := by
  subst hid
  refine Meets.bind (meets_attempted (meets_quiet trivial stable_holdsLock (fun _ _ _ _ ↦ trivial)
    fun w x a w' _ h _ hquiet _ _ ↦ h.quiet hquiet)) fun _ ↦ ?_
  refine Meets.bind ((meets_refreshTokens _ credential .base).pre fun w _ h ↦ ⟨h, fun _ ↦ .inl rfl⟩)
    fun replacement ↦ ?_
  intro w hw h
  exact Meets.bind (meets_written (meets_replace_refresh h.1))
    (fun _ ↦ meets_ret fun _ _ _ ↦ trivial) w hw h.2

theorem meets_finallyRelease {α : Type} {token : String} {m : ConnectionProg α}
    (hm : (refreshSetting registry connectionId reference).Meets p P m (fun _ _ ↦ True)
      fun _ _ ↦ True) :
    (refreshSetting registry connectionId reference).Meets p (fun w ↦ Drawn p.1 token w ∧ P w)
      (OAuthBroker.finallyRelease connectionId token m) (fun _ _ ↦ True) fun _ _ ↦ True := by
  have hcaught : (refreshSetting registry connectionId reference).Meets p P
      (Prog.catching (Except.ok <$> m) fun failure ↦
        (pure (.error failure) : ConnectionProg (Except ConnectionFailure α)))
      (fun _ _ ↦ True) fun _ _ ↦ True :=
    Meets.catching (Meets.bind hm fun _ ↦ meets_ret fun _ _ _ ↦ trivial) fun _ ↦
      meets_ret fun _ _ _ ↦ trivial
  refine Meets.bind ((hcaught.frame (permanent_drawn p.1 token)).conseq (fun _ _ h ↦ h)
    (fun _ _ _ h ↦ h.1) fun _ _ _ _ ↦ trivial) fun outcome ↦ ?_
  refine Meets.bind meets_release fun _ ↦ ?_
  exact yields_ofExcept (F := fun _ ↦ True) fun _ _ ↦ trivial

theorem yields_refreshOrWait {connection : IntegrationConnection}
    {credential : IntegrationCredential} (hid : connection.connectionId = connectionId) :
    (refreshSetting registry connectionId reference).Yields p
      (OAuthBroker.refreshOrWait registry reference connection credential) fun _ ↦ True := by
  refine Meets.bind meets_random fun token ↦ ?_
  refine Meets.bind (meets_quiet trivial (permanent_drawn p.1 token).stable
    (fun _ _ _ _ ↦ trivial) (Q := fun _ ↦ Drawn p.1 token) fun w x a w' _ h _ hquiet ↦ ?_)
    fun now ↦ ?_
  · rw [Drawn, hquiet.issued]
    exact h
  · rw [hid]
    refine Meets.bind meets_acquire fun r ↦ ?_
    cases r with
    | unknown => exact meets_raise fun _ _ _ ↦ trivial
    | conflict => exact (yields_awaitRefresh _ _ _).pre fun _ _ _ ↦ trivial
    | done =>
      exact (meets_finallyRelease (meets_refresh hid)).pre fun w _ h ↦ ⟨h.1, h.2 rfl⟩

theorem yields_readRecord {connection : IntegrationConnection}
    (hid : connection.connectionId = connectionId) :
    (refreshSetting registry connectionId reference).Yields p
      (OAuthBroker.readRecord registry reference connection) fun _ ↦ True := by
  refine (yields_readSecret reference).bind fun credential _ ↦ ?_
  split
  · exact yields_ret trivial
  · refine (yields_ofExcept (F := fun _ ↦ True) fun _ _ ↦ trivial).bind fun _ _ ↦ ?_
    refine (yields_someNeedsRefresh _ _).bind fun needs _ ↦ ?_
    split
    · refine (yields_requireRefreshTokens _ _ _).bind fun _ _ ↦ ?_
      split
      · exact yields_refreshOrWait hid
      · exact yields_raise
    · exact yields_ret trivial

theorem yields_requiredConnection (selector : String) :
    (refreshSetting registry connectionId reference).Yields p
      (ConnectionService.requiredConnection selector) fun _ ↦ True := by
  have hget : (refreshSetting registry connectionId reference).Yields p
      (ConnectionService.getConnection selector) fun _ ↦ True := by
    refine (yields_quiet (e := .getConnection selector) trivial fun _ ↦ trivial).bind
      fun found _ ↦ ?_
    cases found with
    | some connection => exact yields_ret trivial
    | none =>
      refine (yields_quiet (e := .getAlias selector) trivial fun _ ↦ trivial).bind fun id _ ↦ ?_
      cases id with
      | none => exact yields_ret trivial
      | some id => exact yields_quiet trivial fun _ ↦ trivial
  refine hget.bind fun connection _ ↦ ?_
  cases connection with
  | some connection => exact yields_ret trivial
  | none => exact yields_raise

theorem yields_verifyCredential (pluginId scheme : String) (credential : IntegrationCredential) :
    (refreshSetting registry connectionId reference).Yields p
      (ConnectionService.verifyCredential registry pluginId scheme credential) fun _ ↦ True := by
  refine Yields.catching (yields_attempted (yields_quiet trivial fun _ ↦ trivial)) fun failure ↦ ?_
  split
  · exact yields_raise
  · exact yields_raise

theorem yields_getBinding (id : String) :
    (refreshSetting registry connectionId reference).Yields p (effect (.getBinding id))
      fun found ↦ ∀ binding ∈ found, binding.connectionId = id ∧
        (binding.reference = reference → id = connectionId) := by
  refine meets_quiet trivial stable_true (fun _ _ _ _ ↦ trivial) fun w x a w' hw _ ha _ ↦ ?_
  cases ha
  exact fun binding hbinding ↦ hw.bound id binding hbinding

theorem yields_recordHealth (connection : IntegrationConnection) (status : HealthStatus)
    (code : String) :
    (refreshSetting registry connectionId reference).Yields p
      (ConnectionService.recordHealth connection status code) fun _ ↦ True := by
  refine (yields_quiet (e := .getHealth _) trivial fun _ ↦ trivial).bind fun previous _ ↦ ?_
  refine yields_clock.bind fun now _ ↦ ?_
  exact Yields.bind (meets_written (yields_quiet trivial fun _ ↦ trivial)) fun _ _ ↦
    yields_ret trivial

theorem yields_rotate (selector : String) (credential : IntegrationCredential) :
    (refreshSetting registry connectionId reference).Yields p
      (ConnectionService.rotate registry selector credential) fun _ ↦ True := by
  refine (yields_requiredConnection selector).bind fun connection _ ↦ ?_
  split
  · exact yields_raise
  extract_lets scheme
  split
  · exact yields_raise
  have hfields : (refreshSetting registry connectionId reference).Yields p
      (ConnectionService.requireFields registry connection.pluginId
        connection.authorization.scheme credential) fun _ ↦ True := by
    rw [ConnectionService.requireFields]
    split
    · exact yields_raise
    · exact yields_ret trivial
  refine hfields.bind fun _ _ ↦ (yields_verifyCredential _ _ _).bind fun verified _ ↦ ?_
  split
  · exact yields_raise
  refine (yields_getBinding _).bind fun found hfound ↦ ?_
  cases found with
  | none => exact yields_raise
  | some binding =>
    obtain ⟨hid, hreference⟩ := hfound binding rfl
    refine Yields.bind (meets_written (yields_replace_rotate hreference)) fun _ _ ↦ ?_
    refine yields_clock.bind fun timestamp _ ↦ ?_
    refine Yields.bind (meets_written (yields_putCredentialBinding fun h ↦
      hid.trans (hreference h))) fun _ _ ↦ ?_
    refine Yields.bind (meets_written (yields_quiet trivial fun _ ↦ trivial)) fun _ _ ↦ ?_
    exact (yields_recordHealth _ _ _).bind fun _ _ ↦ yields_ret trivial

end

/-! ## Runs

`refreshes_work_from_stored` is the guarantee of the holder's two requests, read off every step. -/

/-- The world with one connection, whose credential is stored under the reference. -/
def ConnectionWorld.connected (connection : IntegrationConnection) (reference : String)
    (credential : IntegrationCredential) : ConnectionWorld where
  connections := Function.update (fun _ ↦ none) connection.connectionId (some connection)
  aliases := Function.update (fun _ ↦ none) connection.aliasName (some connection.connectionId)
  bindings := Function.update (fun _ ↦ none) connection.connectionId
    (some ⟨connection.connectionId, reference, connection.createdAt, connection.createdAt⟩)
  health := fun _ ↦ none
  secrets := Function.update (fun _ ↦ none) reference (some ⟨credential, false, [credential]⟩)
  locks := fun _ ↦ none
  issued := []
  created := []
  granted := []
  interrupted := []
  revocations := fun _ ↦ 0
  seen := fun _ ↦ 0

theorem locked_connected (connection : IntegrationConnection) (reference : String)
    (credential : IntegrationCredential) :
    (ConnectionWorld.connected connection reference credential).Locked connection.connectionId
      reference where
  issued := List.nodup_nil
  locked lock hlock := by simp [ConnectionWorld.connected] at hlock
  bound id binding hbinding := by
    simp only [ConnectionWorld.connected, Function.update_apply] at hbinding
    split at hbinding
    · next hid =>
      obtain rfl := Option.some.inj hbinding
      exact ⟨hid.symm, fun _ ↦ hid⟩
    · cases hbinding

theorem refreshes_verified (registry : ConnectionRegistry) (connection : IntegrationConnection)
    (reference : String) (credential : IntegrationCredential) :
    (refreshSetting registry connection.connectionId reference).Verified
      (.connected connection reference credential) (fun _ _ _ ↦ True) fun _ _ _ ↦ True where
  init := locked_connected connection reference credential
  body := by
    rintro ⟨pid, call⟩
    intro w hw hstarts
    cases call with
    | readRecord reference' connection' =>
      obtain ⟨rfl, hid⟩ := hstarts
      exact (Yields.bind (yields_readRecord hid) fun _ _ ↦ yields_ret trivial) w hw trivial
    | rotate selector replacement =>
      exact (Yields.bind (yields_rotate selector replacement) fun _ _ ↦ yields_ret trivial) w hw
        trivial
    | create => exact hstarts.elim
    | rename => exact hstarts.elim
    | test => exact hstarts.elim
    | revoke => exact hstarts.elim
  post_stable _ _ := stable_true
  fail_stable _ _ := stable_true

/-- **Refreshes work from the stored credential**: in every run of the discipline, an exchange that
is answered sends a refresh token which is stored or was just given to its call, and a refresh that
writes has been made from what is stored. -/
theorem refreshes_work_from_stored {registry : ConnectionRegistry}
    {connection : IntegrationConnection} {reference : String} {credential : IntegrationCredential}
    {c c' : Config ConnectionWorld ConnectionEffect ConnectionEffect.Answer ConnectionFailure
      ConnectionResult ConnectionCall} {pid : ℕ} {e : ConnectionEffect} {x : ConnectionChoice}
    (hc : Reachable (connectionService registry)
      (refreshDiscipline connection.connectionId reference)
      (.connected connection reference credential) c)
    (he : c.request pid = some e)
    (hp : Permits (refreshDiscipline connection.connectionId reference) c (.resume pid x))
    (hs : (connectionService registry).step c (.resume pid x) = some c') :
    e.WorksFromStored pid c.state := by
  have hV := refreshes_verified registry connection reference credential
  obtain ⟨call, k, hproc⟩ := Config.procs_of_request he
  -- What a call guarantees of its steps includes where the request that is answered came from.
  obtain ⟨-, -, hworks⟩ := hV.resume (hV.reachable hc) hproc hp hs
  exact hworks

/-! ## A run

One refresh lies between the read and the lock of another one. The second then exchanges the token
that the first has used. -/

def sampleConnection : IntegrationConnection :=
  ⟨"connection", "github", "work", "Work", none, none, none, ⟨"oauth2", "null"⟩, .active, 0, 0⟩

def sampleCredential : IntegrationCredential :=
  [("access_token", "a0"), ("refresh_token", "r0"), ("expires_at", "early")]

def sampleResponse : TokenResponse := ⟨"a1", some "r1", none, none, some "late"⟩

/-- The choices for a refresh up to its exchange, after the credential was read. -/
def sampleLocking (token : String) : List ConnectionChoice :=
  [{}, {}, { text := token }, {}, {}, {}, {}, {}]

instance (connectionId reference : String) :
    (refreshDiscipline connectionId reference).Checked where
  starts _ call _ := by
    cases call <;> simp only [refreshDiscipline] <;> infer_instance
  answers _ e _ _ := by
    cases e <;> simp only [refreshDiscipline] <;> infer_instance

/-- A call reads the credential and begins a refresh. -/
def sampleRefresh (pid : ℕ) : List (Event ConnectionCall ConnectionChoice) :=
  [.start pid (.readRecord "secret" sampleConnection), .resume pid {}] ++
    (sampleLocking "token").map (.resume pid ·)

theorem sampleRefresh_works_from_stored :
    ∃ c c', (connectionService sampleRegistry).run (refreshDiscipline "connection" "secret")
        (sampleRefresh 0) (.initial (.connected sampleConnection "secret" sampleCredential)) =
          some c ∧
      c.request 0 = some (.exchangeToken "secret" "refresh_token" "r0") ∧
      (connectionService sampleRegistry).step c (.resume 0 { response := sampleResponse }) =
        some c' ∧
      ConnectionEffect.WorksFromStored 0
        (.exchangeToken "secret" "refresh_token" "r0") c.state := by
  have hrun : ((connectionService sampleRegistry).run (refreshDiscipline "connection" "secret")
      (sampleRefresh 0) (.initial (.connected sampleConnection "secret" sampleCredential))).map
        (fun c ↦ (c.request 0, c.state.interrupted,
          ((connectionService sampleRegistry).step c
            (.resume 0 { response := sampleResponse })).isSome)) =
      some (some (.exchangeToken "secret" "refresh_token" "r0"), [], true) := by
    decide
  obtain ⟨c, hc, hfacts⟩ := Option.map_eq_some_iff.mp hrun
  obtain ⟨hrequest, hrest⟩ := Prod.mk.inj hfacts
  obtain ⟨hnone, hstep⟩ := Prod.mk.inj hrest
  obtain ⟨c', hc'⟩ := Option.isSome_iff_exists.mp hstep
  have hreachable : Reachable (connectionService sampleRegistry)
      (refreshDiscipline sampleConnection.connectionId "secret")
      (.connected sampleConnection "secret" sampleCredential) c := leads_of_run hc
  refine ⟨c, c', hc, hrequest, hc', refreshes_work_from_stored hreachable hrequest ?_ hc'⟩
  obtain ⟨call, k, hproc⟩ := Config.procs_of_request hrequest
  simp [Permits, hproc, refreshDiscipline, hnone]

/-- Reads and rotations of which no lock expires while its holder runs. -/
def timelyLocks (connectionId reference : String) :
    Discipline ConnectionWorld ConnectionEffect ConnectionCall ConnectionChoice where
  starts := (refreshDiscipline connectionId reference).starts
  answers pid _ _ w := pid ∉ w.interrupted

instance (connectionId reference : String) : (timelyLocks connectionId reference).Checked where
  starts := Discipline.Checked.starts (D := refreshDiscipline connectionId reference)
  answers _ _ _ _ := inferInstanceAs (Decidable (_ ∉ _))

/-- A whole refresh lies between the read of another call and its lock. -/
def sampleOvertaken : List (Event ConnectionCall ConnectionChoice) :=
  [.start 0 (.readRecord "secret" sampleConnection), .resume 0 {}] ++
  sampleRefresh 1 ++
  ([{ response := sampleResponse }, {}, {}] : List ConnectionChoice).map (.resume 1 ·) ++
  (sampleLocking "other").map (.resume 0 ·)

/-- The call that was overtaken sends the refresh token which the other refresh has replaced, and
overwrites what that has stored. -/
theorem overtaken_refresh_overwrites :
    ∃ c c', Reachable (connectionService sampleRegistry) (timelyLocks "connection" "secret")
        (.connected sampleConnection "secret" sampleCredential) c ∧
      c.request 0 = some (.exchangeToken "secret" "refresh_token" "r0") ∧
      (c.state.stored "secret").map (·.field "refresh_token") = some (some "r1") ∧
      c.state.granted = [(1, "r1")] ∧
      Leads (connectionService sampleRegistry) (timelyLocks "connection" "secret") c c' ∧
      c'.request 0 = some (.replaceSecret "secret"
        (refreshedCredential "" { sampleResponse with refreshToken := some "r2" } sampleCredential)
        (.refresh "connection" sampleCredential)) ∧
      c'.state.stored "secret" = some (refreshedCredential "" sampleResponse sampleCredential) := by
  let answer : List (Event ConnectionCall ConnectionChoice) :=
    [.resume 0 { response := { sampleResponse with refreshToken := some "r2" } }]
  have hbefore : ((connectionService sampleRegistry).run (timelyLocks "connection" "secret")
      sampleOvertaken (.initial (.connected sampleConnection "secret" sampleCredential))).map
        (fun c ↦ (c.request 0, (c.state.stored "secret").map (·.field "refresh_token"),
          c.state.granted)) =
      some (some (.exchangeToken "secret" "refresh_token" "r0"), some (some "r1"),
        [(1, "r1")]) := by
    decide
  have hafter : ((connectionService sampleRegistry).run (timelyLocks "connection" "secret")
      sampleOvertaken (.initial (.connected sampleConnection "secret" sampleCredential))).bind
        (fun c ↦ ((connectionService sampleRegistry).run (timelyLocks "connection" "secret")
          answer c).map fun c' ↦ (c'.request 0, c'.state.stored "secret")) =
      some (some (.replaceSecret "secret" (refreshedCredential ""
          { sampleResponse with refreshToken := some "r2" } sampleCredential)
          (.refresh "connection" sampleCredential)),
        some (refreshedCredential "" sampleResponse sampleCredential)) := by
    decide
  obtain ⟨c, hc, hfacts⟩ := Option.map_eq_some_iff.mp hbefore
  obtain ⟨hsends, hrest⟩ := Prod.mk.inj hfacts
  obtain ⟨hstored, hgranted⟩ := Prod.mk.inj hrest
  rw [hc, Option.bind_some] at hafter
  obtain ⟨c', hc', hfacts'⟩ := Option.map_eq_some_iff.mp hafter
  obtain ⟨hwrites, hstored'⟩ := Prod.mk.inj hfacts'
  exact ⟨c, c', leads_of_run hc, hsends, hstored, hgranted, leads_of_run hc', hwrites, hstored'⟩

end RatThings
