import Mathlib.Data.List.Nodup
import RatThings.Connections.Service

/-!
# Revoked connections

A connection that is revoked stays so unless a call writes the record back that it read before the
revocation. A connection that can be used has a secret which nobody has revoked, unless the clean-up
of a creation meets a bundle that was stored after all. Leaving out the runs in which one of these
happens, both hold in every run: a reference belongs to one connection, a secret is revoked by the
call that has created it or after its connection, and nothing leads back.

## Overlapping calls

Rename, test and rotate read the record, and write all of it back some requests later. They look at
the status only in what they have read. So what matters is the order of three requests: the reading,
the write, and the write of a revocation. The count of revocations that the call saw at its reading
is compared with the count at its write; where the two are equal, no revocation was stored between
them.

## The invariant

While a call holds a record that it has read as not revoked, either its count is behind, or the
stored record is not revoked (`Knows`). The other calls keep this: they can only store a revocation
by raising the count. So a call whose count is current may write, and a call that has read the
record as revoked writes it back as revoked or not at all.
-/

namespace RatThings

open Concurrent Prog Service Setting

/-- No call stores a record that is not revoked, if a revocation was stored since it read the
record; and no bundle is stored with its acknowledgement lost. -/
def revocationDiscipline :
    Discipline ConnectionWorld ConnectionEffect ConnectionCall ConnectionChoice where
  starts _ _ _ := True
  answers pid e x w :=
    match e with
    | .putConnection connection => connection.status ≠ .revoked →
      x.fate = .acknowledged ∨ x.fate = .unacknowledged →
        w.seen (pid, connection.connectionId) = w.revocations connection.connectionId
    | .putConnectionBundle connection binding =>
      x.fate = .unacknowledged → w.putConnectionBundle connection binding = none
    | _ => True

/-! ## The invariant, and what a step may do -/

/-- A call has revoked the secret. -/
def ConnectionWorld.SecretRevoked (w : ConnectionWorld) (reference : String) : Prop :=
  ∃ secret, w.secrets reference = some secret ∧ secret.revoked = true

/-- The stored record is revoked. -/
def RevokedAt (id : String) (w : ConnectionWorld) : Prop :=
  ∃ connection, w.connections id = some connection ∧ connection.status = .revoked

structure ConnectionWorld.Usable (w : ConnectionWorld) : Prop where
  created : (w.created.map Prod.snd).Nodup
  seen : ∀ pid id, w.seen (pid, id) ≤ w.revocations id
  keyed : ∀ id connection, w.connections id = some connection →
    connection.connectionId = id ∧ ∃ binding, w.bindings id = some binding
  bound : ∀ id binding, w.bindings id = some binding →
    binding.connectionId = id ∧ binding.reference ∈ w.created.map Prod.snd
  unique : ∀ id id' binding binding', w.bindings id = some binding →
    w.bindings id' = some binding' → binding.reference = binding'.reference → id = id'
  usable : ∀ id connection binding, w.connections id = some connection →
    w.bindings id = some binding → connection.status ≠ .revoked →
      ¬w.SecretRevoked binding.reference

/-- A step of the call `pid`. -/
structure RevocationStep (pid : ℕ) (w w' : ConnectionWorld) : Prop where
  created : w.created ⊆ w'.created
  kept : ∀ id connection, w.connections id = some connection →
    ∃ connection', w'.connections id = some connection' ∧
      (connection.status = .revoked → connection'.status = .revoked)
  /-- A revocation that is new is counted. -/
  counted : ∀ id, w.revocations id < w'.revocations id ∨
    w'.revocations id = w.revocations id ∧ (RevokedAt id w' → RevokedAt id w)
  seen : ∀ q id, q ≠ pid → w'.seen (q, id) = w.seen (q, id)
  rebound : ∀ id binding, w.bindings id = some binding →
    ∃ binding', w'.bindings id = some binding' ∧ binding'.reference = binding.reference
  bound : ∀ id binding', w'.bindings id = some binding' →
    (∃ binding, w.bindings id = some binding ∧ binding.reference = binding'.reference) ∨
      (pid, binding'.reference) ∈ w.created
  revoked : ∀ reference, w'.SecretRevoked reference → w.SecretRevoked reference ∨
    (pid, reference) ∈ w.created ∨
      ∃ id binding, w.bindings id = some binding ∧ binding.reference = reference

def revocationSetting (registry : ConnectionRegistry) :
    Setting ConnectionWorld ConnectionEffect ConnectionEffect.Answer ConnectionFailure
      ConnectionResult ConnectionCall ConnectionChoice where
  service := connectionService registry
  discipline := revocationDiscipline
  inv := ConnectionWorld.Usable
  guar p _ w w' := RevocationStep p.1 w w'

section

variable {registry : ConnectionRegistry} {p : ℕ × ConnectionCall} {P : ConnectionWorld → Prop}
  {w w' : ConnectionWorld} {pid : ℕ} {id reference : String}

theorem RevocationStep.refl (pid : ℕ) (w : ConnectionWorld) : RevocationStep pid w w where
  created := List.Subset.refl _
  kept _ connection h := ⟨connection, h, fun hrevoked ↦ hrevoked⟩
  counted _ := .inr ⟨rfl, fun h ↦ h⟩
  seen _ _ _ := rfl
  rebound _ binding h := ⟨binding, h, rfl⟩
  bound _ binding h := .inl ⟨binding, h, rfl⟩
  revoked _ h := .inl h

/-- Requests that bind and revoke nothing, and do not read a connection. -/
def ConnectionEffect.Neutral : ConnectionEffect → Prop
  | .getConnection _ | .putConnection _ | .putConnectionBundle .. | .putCredentialBinding _
  | .createSecret .. | .revokeSecret _ => False
  | _ => True

/-- What a neutral request leaves as it was. -/
structure NeutralStep (w w' : ConnectionWorld) : Prop where
  connections : w'.connections = w.connections
  bindings : w'.bindings = w.bindings
  created : w'.created = w.created
  revocations : w'.revocations = w.revocations
  seen : w'.seen = w.seen
  revoked : ∀ reference, w'.SecretRevoked reference ↔ w.SecretRevoked reference

theorem NeutralStep.of_secrets (hconnections : w'.connections = w.connections)
    (hbindings : w'.bindings = w.bindings) (hcreated : w'.created = w.created)
    (hrevocations : w'.revocations = w.revocations) (hseen : w'.seen = w.seen)
    (hsecrets : w'.secrets = w.secrets) : NeutralStep w w' where
  connections := hconnections
  bindings := hbindings
  created := hcreated
  revocations := hrevocations
  seen := hseen
  revoked reference := by rw [ConnectionWorld.SecretRevoked, ConnectionWorld.SecretRevoked,
    hsecrets]

/-- A secret that is replaced was not revoked, and is not revoked by that. -/
theorem neutralStep_of_replaceSecret {value : IntegrationCredential} {purpose : ReplacePurpose}
    (h : w.replaceSecret reference value purpose = some w') : NeutralStep w w' := by
  rw [ConnectionWorld.replaceSecret] at h
  split at h
  · cases h
  · next secret hsecret =>
    split at h
    · cases h
    · next hallowed =>
      have hrevoked : ∀ other, (w.setSecret reference
          ⟨value, false, secret.history ++ [value]⟩).SecretRevoked other ↔
            w.SecretRevoked other := by
        intro other
        simp only [ConnectionWorld.SecretRevoked, ConnectionWorld.setSecret,
          Function.update_apply]
        split
        · next heq =>
          rw [heq, hsecret]
          simpa using (not_or.mp hallowed).1
        · rfl
      split at h
      · obtain rfl := Option.some.inj h
        exact ⟨rfl, rfl, rfl, rfl, rfl, hrevoked⟩
      · obtain rfl := Option.some.inj h
        exact ⟨rfl, rfl, rfl, rfl, rfl, hrevoked⟩

theorem neutralStep_of_handle {e : ConnectionEffect} {x : ConnectionChoice} {a : e.Answer}
    (he : e.Neutral) (h : handleConnection pid e x w = some (a, w')) : NeutralStep w w' := by
  have hsame : NeutralStep w w := .of_secrets rfl rfl rfl rfl rfl rfl
  cases e <;> try contradiction
  case putHealth id health =>
    rcases Fate.settle_cases (Option.some.inj h) with ⟨hnext, -⟩ | ⟨rfl, -⟩
    · obtain rfl := Option.some.inj hnext
      exact .of_secrets rfl rfl rfl rfl rfl rfl
    · exact hsame
  case replaceSecret reference value purpose =>
    rcases Fate.settle_cases (Option.some.inj h) with ⟨hnext, -⟩ | ⟨rfl, -⟩
    · exact neutralStep_of_replaceSecret hnext
    · exact hsame
  case acquireRefreshLock id token expiresAt read =>
    rcases Fate.settle_cases (Option.some.inj h) with ⟨hnext, -⟩ | ⟨rfl, -⟩
    · rw [ConnectionWorld.acquireRefreshLock] at hnext
      split at hnext
      · obtain rfl := Option.some.inj hnext
        exact .of_secrets rfl rfl rfl rfl rfl rfl
      · cases hnext
    · exact hsame
  case releaseRefreshLock id token =>
    rcases Fate.settle_cases (Option.some.inj h) with ⟨hnext, -⟩ | ⟨rfl, -⟩
    · obtain rfl := Option.some.inj hnext
      rw [ConnectionWorld.releaseRefreshLock]
      split
      · exact .of_secrets rfl rfl rfl rfl rfl rfl
      · exact hsame
    · exact hsame
  case exchangeToken reference field token =>
    cases h
    exact .of_secrets rfl rfl rfl rfl rfl rfl
  case random =>
    rw [handleConnection] at h
    split at h
    · cases h
      exact .of_secrets rfl rfl rfl rfl rfl rfl
    · cases h
  all_goals
    cases h
    exact hsame

theorem NeutralStep.revokedAt (h : NeutralStep w w') : RevokedAt id w' ↔ RevokedAt id w := by
  rw [RevokedAt, RevokedAt, h.connections]

theorem ConnectionWorld.Usable.neutral (hw : w.Usable) (h : NeutralStep w w') : w'.Usable where
  created := h.created ▸ hw.created
  seen := by
    rw [h.seen, h.revocations]
    exact hw.seen
  keyed := by
    rw [h.connections, h.bindings]
    exact hw.keyed
  bound := by
    rw [h.bindings, h.created]
    exact hw.bound
  unique := by
    rw [h.bindings]
    exact hw.unique
  usable := by
    rw [h.connections, h.bindings]
    intro id connection binding hconnection hbinding hstatus hrevoked
    exact hw.usable id connection binding hconnection hbinding hstatus ((h.revoked _).mp hrevoked)

theorem revocationStep_of_neutral (h : NeutralStep w w') : RevocationStep pid w w' where
  created := h.created ▸ List.Subset.refl _
  kept _ connection hconnection := by
    rw [h.connections]
    exact ⟨connection, hconnection, fun hrevoked ↦ hrevoked⟩
  counted _ := .inr ⟨by rw [h.revocations], h.revokedAt.mp⟩
  seen _ _ _ := by rw [h.seen]
  rebound _ binding hbinding := by
    rw [h.bindings]
    exact ⟨binding, hbinding, rfl⟩
  bound _ binding hbinding := by
    rw [h.bindings] at hbinding
    exact .inl ⟨binding, hbinding, rfl⟩
  revoked _ hrevoked := .inl ((h.revoked _).mp hrevoked)

/-- A reading of a connection changes what the call has seen, and nothing else. -/
theorem ConnectionWorld.Usable.look (hw : w.Usable) (pid : ℕ) (id : String) :
    (w.look pid id).Usable where
  created := hw.created
  seen q id' := by
    simp only [ConnectionWorld.look, Function.update_apply]
    split
    · next heq =>
      cases heq
      exact le_rfl
    · exact hw.seen q id'
  keyed := hw.keyed
  bound := hw.bound
  unique := hw.unique
  usable := hw.usable

theorem revocationStep_look : RevocationStep pid w (w.look pid id) where
  created := List.Subset.refl _
  kept _ connection h := ⟨connection, h, fun hrevoked ↦ hrevoked⟩
  counted _ := .inr ⟨rfl, fun h ↦ h⟩
  seen _ _ hq := Function.update_of_ne (fun heq ↦ hq (congrArg Prod.fst heq)) ..
  rebound _ binding h := ⟨binding, h, rfl⟩
  bound _ binding h := .inl ⟨binding, h, rfl⟩
  revoked _ h := .inl h

/-- A program of neutral requests. -/
theorem yields_neutral {α : Type} {m : ConnectionProg α} (h : m.Within ConnectionEffect.Neutral) :
    (revocationSetting registry).Yields p m fun _ ↦ True := by
  refine yields_of_within (fun e he w x a w' hw _ _ ha ↦ ?_) h
  have hneutral : NeutralStep w w' := neutralStep_of_handle he ha
  exact ⟨hw.neutral hneutral, revocationStep_of_neutral hneutral, trivial⟩

/-! ## What a call knows -/

/-- The connection is stored. -/
def StoredAt (id : String) (w : ConnectionWorld) : Prop :=
  ∃ connection, w.connections id = some connection

/-- What a call knows of a connection that it has read: if it was not revoked, and no revocation was
stored since, it is not. -/
def Knows (pid : ℕ) (connection : IntegrationConnection) (w : ConnectionWorld) : Prop :=
  StoredAt connection.connectionId w ∧ (connection.status ≠ .revoked →
    w.seen (pid, connection.connectionId) = w.revocations connection.connectionId →
      ¬RevokedAt connection.connectionId w)

def BoundTo (id reference : String) (w : ConnectionWorld) : Prop :=
  ∃ binding, w.bindings id = some binding ∧ binding.reference = reference

/-- The call has created the secret, and no connection has it yet. -/
def FreshSecret (pid : ℕ) (reference : String) (w : ConnectionWorld) : Prop :=
  (pid, reference) ∈ w.created ∧
    (∀ id binding, w.bindings id = some binding → binding.reference ≠ reference) ∧
      ¬w.SecretRevoked reference

theorem permanent_storedAt (id : String) : (revocationSetting registry).Permanent
    (StoredAt id) := by
  intro q e w w' _ _ hstep ⟨connection, hconnection⟩
  obtain ⟨connection', hconnection', -⟩ := hstep.kept id connection hconnection
  exact ⟨connection', hconnection'⟩

theorem permanent_revokedAt (id : String) :
    (revocationSetting registry).Permanent (RevokedAt id) := by
  intro q e w w' _ _ hstep ⟨connection, hconnection, hrevoked⟩
  obtain ⟨connection', hconnection', hrevoked'⟩ := hstep.kept id connection hconnection
  exact ⟨connection', hconnection', hrevoked' hrevoked⟩

/-- Other calls store a revocation only by raising the count, which is then ahead for good. -/
theorem stable_knows {connection : IntegrationConnection} :
    (revocationSetting registry).Stable p (Knows p.1 connection) := by
  intro q e w w' hne hw hw' hstep ⟨hstored, hactive⟩
  refine ⟨permanent_storedAt _ hw hw' hstep hstored, fun hstatus hcurrent hrevoked ↦ ?_⟩
  rw [hstep.seen p.1 _ (Ne.symm hne)] at hcurrent
  rcases hstep.counted connection.connectionId with hraised | ⟨hsame, hback⟩
  · have hbefore : w.seen (p.1, connection.connectionId) ≤
        w.revocations connection.connectionId := hw.seen p.1 _
    omega
  · exact hactive hstatus (hcurrent.trans hsame) (hback hrevoked)

theorem Knows.neutral {connection : IntegrationConnection} (h : Knows pid connection w)
    (hstep : NeutralStep w w') : Knows pid connection w' := by
  obtain ⟨⟨stored, hstored⟩, hactive⟩ := h
  refine ⟨⟨stored, hstep.connections ▸ hstored⟩, fun hstatus hcurrent hrevoked ↦ ?_⟩
  rw [hstep.seen, hstep.revocations] at hcurrent
  exact hactive hstatus hcurrent (hstep.revokedAt.mp hrevoked)

/-- What neutral requests keep is kept across a program of them. -/
theorem keeps_neutral {α : Type} {m : ConnectionProg α} {F : ConnectionWorld → Prop}
    (hF : (revocationSetting registry).Stable p F)
    (hkeep : ∀ w w', NeutralStep w w' → F w → F w') (hm : m.Within ConnectionEffect.Neutral) :
    (revocationSetting registry).Meets p F m (fun _ ↦ F) fun _ ↦ F := by
  have hframe : (revocationSetting registry).Meets p (fun w ↦ F w ∧ True) m
      (fun _ w ↦ F w ∧ True) fun _ w ↦ F w ∧ True :=
    Meets.frame_within hF (fun _ w x _ w' he _ _ _ ha _ hf ↦
      hkeep w w' (neutralStep_of_handle he ha) hf) hm (yields_neutral hm)
  exact hframe.conseq (fun _ _ h ↦ ⟨h, trivial⟩) (fun _ _ _ h ↦ h.1) fun _ _ _ h ↦ h.1

theorem keeps_knows {α : Type} {m : ConnectionProg α} {connection : IntegrationConnection}
    (hm : m.Within ConnectionEffect.Neutral) :
    (revocationSetting registry).Meets p (Knows p.1 connection) m
      (fun _ ↦ Knows p.1 connection) fun _ ↦ Knows p.1 connection :=
  keeps_neutral stable_knows (fun _ _ hstep h ↦ h.neutral hstep) hm

theorem permanent_boundTo (id reference : String) :
    (revocationSetting registry).Permanent (BoundTo id reference) := by
  intro q e w w' _ _ hstep ⟨binding, hbinding, hreference⟩
  obtain ⟨binding', hbinding', hsame⟩ := hstep.rebound id binding hbinding
  exact ⟨binding', hbinding', hsame.trans hreference⟩

/-- Other calls bind and revoke what they have created or what is bound. -/
theorem stable_freshSecret :
    (revocationSetting registry).Stable p (FreshSecret p.1 reference) := by
  intro q e w w' hne hw _ hstep ⟨hcreated, hunbound, hlive⟩
  have hother : (q.1, reference) ∉ w.created := by
    intro hq
    have heq : (q.1, reference) = (p.1, reference) :=
      List.inj_on_of_nodup_map hw.created hq hcreated rfl
    exact hne (Prod.mk.inj heq).1
  refine ⟨hstep.created hcreated, fun id binding hbinding heq ↦ ?_, fun hrevoked ↦ ?_⟩
  · subst heq
    rcases hstep.bound id binding hbinding with ⟨binding₀, hbinding₀, hsame⟩ | hq
    · exact hunbound id binding₀ hbinding₀ hsame
    · exact hother hq
  · rcases hstep.revoked reference hrevoked with hbefore | hq | ⟨id, binding, hbinding, heq⟩
    · exact hlive hbefore
    · exact hother hq
    · exact hunbound id binding hbinding heq

/-! ## Writes of connections -/

theorem connections_setConnection (w : ConnectionWorld) (connection : IntegrationConnection)
    (id : String) : (w.setConnection connection).connections id =
      if id = connection.connectionId then some connection else w.connections id := by
  simp only [ConnectionWorld.setConnection, Function.update_apply]

/-- A revocation is counted when it is stored. -/
theorem counted_setConnection (w : ConnectionWorld) (connection : IntegrationConnection)
    (id : String) : w.revocations id < (w.setConnection connection).revocations id ∨
      (w.setConnection connection).revocations id = w.revocations id ∧
        (RevokedAt id (w.setConnection connection) → RevokedAt id w) := by
  have hother : id ≠ connection.connectionId →
      RevokedAt id (w.setConnection connection) → RevokedAt id w := by
    intro hid
    rw [RevokedAt, RevokedAt, connections_setConnection, if_neg hid]
    exact fun h ↦ h
  by_cases hstatus : connection.status = .revoked
  · by_cases hid : id = connection.connectionId
    · left
      simp [ConnectionWorld.setConnection, hstatus, hid]
    · right
      exact ⟨by simp [ConnectionWorld.setConnection, hstatus, hid], hother hid⟩
  · right
    refine ⟨by simp [ConnectionWorld.setConnection, hstatus], fun hrevoked ↦ ?_⟩
    by_cases hid : id = connection.connectionId
    · obtain ⟨stored, hstored, hrevoked⟩ := hrevoked
      rw [connections_setConnection, if_pos hid] at hstored
      exact absurd (Option.some.inj hstored ▸ hrevoked) hstatus
    · exact hother hid hrevoked

theorem seen_setConnection (hw : w.Usable) (connection : IntegrationConnection) (q : ℕ)
    (id : String) : (w.setConnection connection).seen (q, id) ≤
      (w.setConnection connection).revocations id := by
  have hbefore : w.seen (q, id) ≤ w.revocations id := hw.seen q id
  rcases counted_setConnection w connection id with hraised | ⟨hsame, -⟩
  · exact hbefore.trans hraised.le
  · rw [hsame]
    exact hbefore

/-- Over a record that is not revoked any record may be stored, and over one that is revoked, one
that is revoked. -/
theorem usable_setConnection {connection : IntegrationConnection} (hw : w.Usable)
    (hstored : StoredAt connection.connectionId w)
    (hactive : connection.status ≠ .revoked → ¬RevokedAt connection.connectionId w) :
    (w.setConnection connection).Usable := by
  obtain ⟨stored, hstored⟩ := hstored
  refine ⟨hw.created, seen_setConnection hw connection, fun id c hc ↦ ?_, hw.bound, hw.unique,
    fun id c binding hc hbinding hc' ↦ ?_⟩
  · rw [connections_setConnection] at hc
    split at hc
    · next hid =>
      obtain rfl := Option.some.inj hc
      exact ⟨hid.symm, hid ▸ (hw.keyed _ stored hstored).2⟩
    · exact hw.keyed id c hc
  · rw [connections_setConnection] at hc
    split at hc
    · next hid =>
      obtain rfl := Option.some.inj hc
      subst hid
      exact hw.usable _ stored binding hstored hbinding fun hrevoked ↦
        hactive hc' ⟨stored, hstored, hrevoked⟩
    · exact hw.usable id c binding hc hbinding hc'

theorem revocationStep_setConnection {connection : IntegrationConnection}
    (hactive : connection.status ≠ .revoked → ¬RevokedAt connection.connectionId w) :
    RevocationStep pid w (w.setConnection connection) where
  created := List.Subset.refl _
  kept id c hc := by
    rw [connections_setConnection]
    split
    · next hid =>
      refine ⟨connection, rfl, fun hrevoked ↦ ?_⟩
      by_contra hstatus
      exact hactive hstatus ⟨c, hid ▸ hc, hrevoked⟩
    · exact ⟨c, hc, fun h ↦ h⟩
  counted := counted_setConnection w connection
  seen _ _ _ := rfl
  rebound _ binding h := ⟨binding, h, rfl⟩
  bound _ binding h := .inl ⟨binding, h, rfl⟩
  revoked _ h := .inl h

/-- A call writes back the record that it has read, under a status that is not more alive. -/
theorem meets_putConnection {known connection : IntegrationConnection}
    (hid : connection.connectionId = known.connectionId)
    (hstatus : connection.status ≠ .revoked → known.status ≠ .revoked) :
    (revocationSetting registry).Meets p (Knows p.1 known) (effect (.putConnection connection))
      (fun r w ↦ Knows p.1 known w ∧ (r = .done → connection.status = .revoked →
        RevokedAt known.connectionId w)) fun _ _ ↦ True := by
  refine meets_perform stable_knows fun w x a w' hw hknown hx ha ↦ ?_
  rcases Fate.settle_applied (Option.some.inj ha) with ⟨hnext, hfate⟩ | ⟨rfl, hne⟩
  swap
  · exact ⟨hw, .refl p.1 _, hknown, fun hdone ↦ absurd hdone hne⟩
  rw [ConnectionWorld.putConnection] at hnext
  split at hnext
  swap
  · cases hnext
  obtain rfl := Option.some.inj hnext
  obtain ⟨hstored, hactive⟩ := hknown
  rw [← hid] at hstored hactive ⊢
  -- The reading is current, so what was read as not revoked is not revoked.
  have hlive : connection.status ≠ .revoked → ¬RevokedAt connection.connectionId w :=
    fun hne ↦ hactive (hstatus hne) (hx hne hfate)
  have hself : (w.setConnection connection).connections connection.connectionId =
      some connection := by
    rw [connections_setConnection, if_pos rfl]
  refine ⟨usable_setConnection hw hstored hlive, revocationStep_setConnection hlive, ?_,
    fun _ hrevoked ↦ ⟨connection, hself, hrevoked⟩⟩
  rw [Knows, ← hid]
  refine ⟨⟨connection, hself⟩, fun hne hcurrent ⟨stored, hstored', hrevoked⟩ ↦ ?_⟩
  obtain rfl := Option.some.inj (hself.symm.trans hstored')
  have hbefore : w.seen (p.1, connection.connectionId) ≤
      w.revocations connection.connectionId := hw.seen p.1 _
  simp only [ConnectionWorld.setConnection, hrevoked, if_true, Function.update_self] at hcurrent
  omega

/-- Bindings are written back under the reference they have. -/
theorem meets_putCredentialBinding {binding : IntegrationCredentialBinding} :
    (revocationSetting registry).Meets p (BoundTo binding.connectionId binding.reference)
      (effect (.putCredentialBinding binding)) (fun _ _ ↦ True) fun _ _ ↦ True := by
  refine meets_perform (permanent_boundTo _ _).stable fun w x a w' hw hbound _ ha ↦ ?_
  rcases Fate.settle_cases (Option.some.inj ha) with ⟨hnext, -⟩ | ⟨rfl, -⟩
  · obtain rfl := Option.some.inj hnext
    obtain ⟨old, hold, hreference⟩ := hbound
    have hforth : ∀ id b, w.bindings id = some b →
        ∃ b', (w.setBinding binding).bindings id = some b' ∧ b'.reference = b.reference := by
      intro id b hb
      simp only [ConnectionWorld.setBinding, Function.update_apply]
      split
      · next hid =>
        rw [hid, hold] at hb
        exact ⟨binding, rfl, by rw [← hreference, Option.some.inj hb]⟩
      · exact ⟨b, hb, rfl⟩
    have hback : ∀ id b', (w.setBinding binding).bindings id = some b' →
        b'.connectionId = id ∧ ∃ b, w.bindings id = some b ∧ b.reference = b'.reference := by
      intro id b' hb'
      simp only [ConnectionWorld.setBinding, Function.update_apply] at hb'
      split at hb'
      · next hid =>
        obtain rfl := Option.some.inj hb'
        exact ⟨hid.symm, old, hid ▸ hold, hreference⟩
      · exact ⟨(hw.bound id b' hb').1, b', hb', rfl⟩
    refine ⟨⟨hw.created, hw.seen, fun id c hc ↦ ?_, fun id b' hb' ↦ ?_,
      fun id id' b b' hb hb' heq ↦ ?_, fun id c b' hc hb' hactive ↦ ?_⟩,
      ⟨List.Subset.refl _, fun id c hc ↦ ⟨c, hc, fun h ↦ h⟩, fun _ ↦ .inr ⟨rfl, fun h ↦ h⟩,
        fun _ _ _ ↦ rfl, hforth, fun id b' hb' ↦ .inl (hback id b' hb').2, fun _ h ↦ .inl h⟩,
      trivial⟩
    · obtain ⟨hid, b, hb⟩ := hw.keyed id c hc
      obtain ⟨b', hb', -⟩ := hforth id b hb
      exact ⟨hid, b', hb'⟩
    · obtain ⟨hid, b, hb, hsame⟩ := hback id b' hb'
      exact ⟨hid, hsame ▸ (hw.bound id b hb).2⟩
    · obtain ⟨-, b₀, hb₀, hsame⟩ := hback id b hb
      obtain ⟨-, b₀', hb₀', hsame'⟩ := hback id' b' hb'
      exact hw.unique id id' b₀ b₀' hb₀ hb₀' (hsame.trans (heq.trans hsame'.symm))
    · obtain ⟨-, b, hb, hsame⟩ := hback id b' hb'
      exact hsame ▸ hw.usable id c b hc hb hactive
  · exact ⟨hw, .refl p.1 _, trivial⟩

/-! ## Secrets -/

theorem meets_createSecret {name : String} {value : IntegrationCredential} :
    (revocationSetting registry).Meets p (fun _ ↦ True) (effect (.createSecret name value))
      (fun r w ↦ ∀ reference, r = .ok reference → FreshSecret p.1 reference w) fun _ _ ↦ True := by
  refine meets_perform stable_true fun w x a w' hw _ _ ha ↦ ?_
  simp only [revocationSetting, connectionService, handleConnection] at ha
  split at ha
  · cases ha
    exact ⟨hw, .refl p.1 _, fun _ h ↦ by cases h⟩
  split at ha
  swap
  · cases ha
  next hfresh =>
    obtain ⟨hnone, hunused⟩ := hfresh
    obtain ⟨hanswer, rfl⟩ := Prod.mk.inj (Option.some.inj ha)
    have hrevoked : ∀ reference, ConnectionWorld.SecretRevoked
        { w.setSecret x.text ⟨value, false, [value]⟩ with
          created := w.created ++ [(p.1, x.text)] } reference ↔ w.SecretRevoked reference := by
      intro reference
      simp only [ConnectionWorld.SecretRevoked, ConnectionWorld.setSecret, Function.update_apply]
      split
      · next heq => simp [heq, hnone]
      · rfl
    refine ⟨⟨?_, hw.seen, hw.keyed, fun id binding hbinding ↦ ?_, hw.unique,
      fun id c binding hc hbinding hactive hr ↦ ?_⟩, ⟨List.subset_append_left _ _,
        fun id c hc ↦ ⟨c, hc, fun h ↦ h⟩, fun _ ↦ .inr ⟨rfl, fun h ↦ h⟩, fun _ _ _ ↦ rfl,
        fun id binding h ↦ ⟨binding, h, rfl⟩, fun id binding h ↦ .inl ⟨binding, h, rfl⟩,
        fun r hr ↦ .inl ((hrevoked r).mp hr)⟩,
      fun reference hok ↦ ?_⟩
    · rw [List.map_append]
      refine List.nodup_append.mpr ⟨hw.created, by simp, fun r hr r' hr' heq ↦ ?_⟩
      obtain rfl : r' = x.text := by simpa using hr'
      exact hunused (heq ▸ hr)
    · obtain ⟨hid, hmem⟩ := hw.bound id binding hbinding
      exact ⟨hid, by rw [List.map_append]; exact List.mem_append_left _ hmem⟩
    · exact hw.usable id c binding hc hbinding hactive ((hrevoked _).mp hr)
    · have htext : x.text = reference := by
        rw [← hanswer, ConnectionChoice.result] at hok
        split at hok
        · cases hok
        · exact Except.ok.inj hok
      subst htext
      refine ⟨List.mem_append_right _ List.mem_cons_self, fun id binding hbinding heq ↦ ?_,
        fun hr ↦ ?_⟩
      · exact hunused (heq ▸ (hw.bound id binding hbinding).2)
      · obtain ⟨secret, hsecret, -⟩ := (hrevoked _).mp hr
        rw [hnone] at hsecret
        cases hsecret

theorem bindings_bundle (w : ConnectionWorld) {connection : IntegrationConnection}
    {binding : IntegrationCredentialBinding} (hid : binding.connectionId = connection.connectionId)
    (id : String) : ((w.setConnection connection).setBinding binding).bindings id =
      if id = connection.connectionId then some binding else w.bindings id := by
  simp only [ConnectionWorld.setConnection, ConnectionWorld.setBinding, Function.update_apply, hid]

/-- A bundle under a new id, with a secret that nothing else has. -/
theorem usable_bundle {connection : IntegrationConnection} {binding : IntegrationCredentialBinding}
    (hw : w.Usable) (hid : binding.connectionId = connection.connectionId)
    (hfresh : FreshSecret pid binding.reference w) :
    ((w.setConnection connection).setBinding binding).Usable := by
  obtain ⟨hcreated, hunbound, hlive⟩ := hfresh
  have hconnections : ∀ id, ((w.setConnection connection).setBinding binding).connections id =
      if id = connection.connectionId then some connection else w.connections id :=
    connections_setConnection w connection
  refine ⟨hw.created, seen_setConnection hw connection, fun id c hc ↦ ?_, fun id b hb ↦ ?_,
    fun id id' b b' hb hb' heq ↦ ?_, fun id c b hc hb hactive ↦ ?_⟩
  · rw [hconnections] at hc
    rw [bindings_bundle w hid]
    split at hc
    · next heq =>
      obtain rfl := Option.some.inj hc
      exact ⟨heq.symm, binding, by rw [if_pos heq]⟩
    · next hne =>
      rw [if_neg hne]
      exact hw.keyed id c hc
  · rw [bindings_bundle w hid] at hb
    split at hb
    · next heq =>
      obtain rfl := Option.some.inj hb
      exact ⟨hid.trans heq.symm, List.mem_map_of_mem hcreated⟩
    · exact hw.bound id b hb
  · rw [bindings_bundle w hid] at hb hb'
    split at hb
    · next h =>
      obtain rfl := Option.some.inj hb
      split at hb'
      · next h' => exact h.trans h'.symm
      · exact absurd heq.symm (hunbound id' b' hb')
    · split at hb'
      · obtain rfl := Option.some.inj hb'
        exact absurd heq (hunbound id b hb)
      · exact hw.unique id id' b b' hb hb' heq
  · rw [hconnections] at hc
    rw [bindings_bundle w hid] at hb
    split at hc
    · next h =>
      rw [if_pos h] at hb
      exact Option.some.inj hb ▸ hlive
    · next h =>
      rw [if_neg h] at hb
      exact hw.usable id c b hc hb hactive

theorem revocationStep_bundle {connection : IntegrationConnection}
    {binding : IntegrationCredentialBinding} (hid : binding.connectionId = connection.connectionId)
    (hcreated : (pid, binding.reference) ∈ w.created)
    (hnoConnection : w.connections connection.connectionId = none)
    (hnoBinding : w.bindings connection.connectionId = none) :
    RevocationStep pid w ((w.setConnection connection).setBinding binding) := by
  refine ⟨List.Subset.refl _, fun id c hc ↦ ⟨c, ?_, fun h ↦ h⟩, counted_setConnection w connection,
    fun _ _ _ ↦ rfl, fun id b hb ↦ ⟨b, ?_, rfl⟩, fun id b hb ↦ ?_, fun _ h ↦ .inl h⟩
  · have hne : id ≠ connection.connectionId := by
      rintro rfl
      rw [hnoConnection] at hc
      cases hc
    exact (connections_setConnection w connection id).trans ((if_neg hne).trans hc)
  · have hne : id ≠ connection.connectionId := by
      rintro rfl
      rw [hnoBinding] at hb
      cases hb
    rw [bindings_bundle w hid, if_neg hne]
    exact hb
  · rw [bindings_bundle w hid] at hb
    split at hb
    · obtain rfl := Option.some.inj hb
      exact .inr hcreated
    · exact .inl ⟨b, hb, rfl⟩

/-- The bundle binds a secret of its caller. A bundle that is not reported as stored is not. -/
theorem meets_putConnectionBundle {connection : IntegrationConnection}
    {binding : IntegrationCredentialBinding} (hid : binding.connectionId = connection.connectionId)
    (hreference : binding.reference = reference) :
    (revocationSetting registry).Meets p (FreshSecret p.1 reference)
      (effect (.putConnectionBundle connection binding))
      (fun r w ↦ (r = .done → True) ∧ (r ≠ .done → FreshSecret p.1 reference w))
      fun _ ↦ FreshSecret p.1 reference := by
  subst hreference
  refine meets_perform stable_freshSecret fun w x a w' hw hfresh hx ha ↦ ?_
  rcases Fate.settle_outcome (Option.some.inj ha) with ⟨hnext, hreported⟩ | ⟨rfl, -⟩
  swap
  · exact ⟨hw, .refl p.1 _, fun _ ↦ trivial, fun _ ↦ hfresh⟩
  have hdone : a = .done := by
    rcases hreported with hdone | hlost
    · exact hdone
    · rw [hx hlost] at hnext
      cases hnext
  rw [ConnectionWorld.putConnectionBundle] at hnext
  split at hnext
  swap
  · cases hnext
  next habsent =>
    obtain ⟨hnoConnection, -, hnoBinding⟩ := habsent
    obtain rfl := Option.some.inj hnext
    rw [hid] at hnoBinding
    exact ⟨usable_bundle hw hid hfresh,
      revocationStep_bundle hid hfresh.1 hnoConnection hnoBinding, fun _ ↦ trivial,
      fun hne ↦ absurd hdone hne⟩

theorem secretRevoked_revokeSecret {other : String}
    (h : (w.revokeSecret reference).SecretRevoked other) : w.SecretRevoked other ∨
    other = reference := by
  rw [ConnectionWorld.revokeSecret] at h
  split at h
  · exact .inl h
  · simp only [ConnectionWorld.SecretRevoked, ConnectionWorld.setSecret, Function.update_apply] at h
    split at h
    · next heq => exact .inr heq
    · exact .inl h

/-- Revoking a secret that no usable connection has. -/
theorem meets_revokeSecret (hP : (revocationSetting registry).Stable p P)
    (hunused : ∀ w, w.Usable → P w → ∀ id connection binding, w.connections id = some connection →
      w.bindings id = some binding → connection.status ≠ .revoked → binding.reference ≠ reference)
    (howned : ∀ w, P w → (p.1, reference) ∈ w.created ∨
      ∃ id binding, w.bindings id = some binding ∧ binding.reference = reference) :
    (revocationSetting registry).Meets p P (effect (.revokeSecret reference)) (fun _ _ ↦ True)
      fun _ _ ↦ True := by
  refine meets_perform hP fun w x a w' hw hp _ ha ↦ ?_
  rcases Fate.settle_cases (Option.some.inj ha) with ⟨hnext, -⟩ | ⟨rfl, -⟩
  swap
  · exact ⟨hw, .refl p.1 _, trivial⟩
  obtain rfl := Option.some.inj hnext
  have hsame : (w.revokeSecret reference).connections = w.connections ∧
      (w.revokeSecret reference).bindings = w.bindings ∧
        (w.revokeSecret reference).created = w.created ∧
          (w.revokeSecret reference).revocations = w.revocations ∧
            (w.revokeSecret reference).seen = w.seen := by
    rw [ConnectionWorld.revokeSecret]
    split
    · exact ⟨rfl, rfl, rfl, rfl, rfl⟩
    · exact ⟨rfl, rfl, rfl, rfl, rfl⟩
  obtain ⟨hconnections, hbindings, hcreated, hrevocations, hseen⟩ := hsame
  refine ⟨⟨hcreated ▸ hw.created, ?_, ?_, ?_, ?_, ?_⟩, ⟨hcreated ▸ List.Subset.refl _,
    fun id c hc ↦ ?_, fun id ↦ .inr ⟨by rw [hrevocations], ?_⟩, fun _ _ _ ↦ by rw [hseen],
    fun id b hb ↦ ?_, fun id b hb ↦ ?_, fun other hother ↦ ?_⟩, trivial⟩
  · rw [hseen, hrevocations]
    exact hw.seen
  · rw [hconnections, hbindings]
    exact hw.keyed
  · rw [hbindings, hcreated]
    exact hw.bound
  · rw [hbindings]
    exact hw.unique
  · rw [hconnections, hbindings]
    intro id c b hc hb hactive hrevoked
    rcases secretRevoked_revokeSecret hrevoked with hbefore | heq
    · exact hw.usable id c b hc hb hactive hbefore
    · exact hunused w hw hp id c b hc hb hactive heq
  · exact ⟨c, hconnections ▸ hc, fun h ↦ h⟩
  · rw [RevokedAt, RevokedAt, hconnections]
    exact fun h ↦ h
  · exact ⟨b, hbindings ▸ hb, rfl⟩
  · exact .inl ⟨b, hbindings ▸ hb, rfl⟩
  · rcases secretRevoked_revokeSecret hother with hbefore | heq
    · exact .inl hbefore
    · exact .inr (heq ▸ howned w hp)

end

/-! ## Programs of neutral requests -/

section

variable {registry : ConnectionRegistry} {R : ConnectionEffect → Prop}

theorem within_effect {e : ConnectionEffect} (he : R e) : (effect e).Within R :=
  within_perform he

/-- Neutral requests, and readings of connections. -/
def ConnectionEffect.Harmless (e : ConnectionEffect) : Prop :=
  e.Neutral ∨ ∃ id, e = .getConnection id

theorem within_now : (effect .now).Within ConnectionEffect.Neutral := within_effect trivial

theorem within_ofExcept {α : Type} (r : Except ConnectionFailure α) :
    (Prog.ofExcept r : ConnectionProg α).Within R := by
  cases r with
  | ok a => trivial
  | error failure => trivial

theorem within_attempted {α : Type} {m : ConnectionProg (Except ConnectionFailure α)}
    (hm : m.Within R) : (attempted m).Within R :=
  hm.bind within_ofExcept

theorem within_acknowledged {m : ConnectionProg Reply} (hm : m.Within R) :
    (acknowledged m).Within R := by
  refine hm.bind fun r ↦ ?_
  cases r with
  | done => trivial
  | conflict => trivial
  | unknown => trivial

theorem within_getConnection (selector : String) :
    (ConnectionService.getConnection selector).Within ConnectionEffect.Harmless := by
  refine Within.bind (within_effect (.inr ⟨selector, rfl⟩)) fun found ↦ ?_
  cases found with
  | some connection => trivial
  | none =>
    refine Within.bind (within_effect (.inl trivial)) fun id ↦ ?_
    cases id with
    | none => trivial
    | some id => exact within_effect (.inr ⟨id, rfl⟩)

theorem within_verifyCredential (pluginId scheme : String) (credential : IntegrationCredential) :
    (ConnectionService.verifyCredential registry pluginId scheme credential).Within
      ConnectionEffect.Neutral := by
  refine Within.catching (within_attempted (within_effect trivial)) fun failure ↦ ?_
  split
  · trivial
  · trivial

theorem within_requireFields (pluginId scheme : String) (credential : IntegrationCredential) :
    (ConnectionService.requireFields registry pluginId scheme credential).Within
      ConnectionEffect.Neutral := by
  rw [ConnectionService.requireFields]
  split
  · trivial
  · trivial

theorem within_availableAlias (base : String) (remaining : ℕ) :
    ∀ suffix, (ConnectionService.availableAlias registry base suffix remaining).Within
      ConnectionEffect.Harmless := by
  induction remaining with
  | zero =>
    intro suffix
    trivial
  | succ remaining ih =>
    intro suffix
    refine (within_getConnection _).bind fun found ↦ ?_
    cases found with
    | none => trivial
    | some connection => exact ih (suffix + 1)

theorem within_chooseAlias (pluginId : String) (aliasName : Option String)
    (verified : VerifiedCredential) :
    (ConnectionService.chooseAlias registry pluginId aliasName verified).Within
      ConnectionEffect.Harmless := by
  cases aliasName with
  | some aliasName =>
    refine (within_getConnection _).bind fun found ↦ ?_
    cases found with
    | some connection => trivial
    | none => trivial
  | none => exact within_availableAlias _ _ _

theorem within_recordHealth (connection : IntegrationConnection) (status : HealthStatus)
    (code : String) :
    (ConnectionService.recordHealth connection status code).Within ConnectionEffect.Neutral := by
  refine Within.bind (within_effect trivial) fun previous ↦ ?_
  refine Within.bind (within_effect trivial) fun now ↦ ?_
  exact Within.bind (within_acknowledged (within_effect trivial)) fun _ ↦ trivial

theorem within_someNeedsRefresh (credential : IntegrationCredential) (starts : List String) :
    (OAuthBroker.someNeedsRefresh registry credential starts).Within ConnectionEffect.Neutral := by
  induction starts with
  | nil => trivial
  | cons start starts ih =>
    refine Within.bind (within_effect trivial) fun now ↦ ?_
    split
    · trivial
    · exact ih

theorem within_requireRefreshTokens (connection : IntegrationConnection)
    (credential : IntegrationCredential) (starts : List String) :
    (OAuthBroker.requireRefreshTokens registry connection credential starts).Within
      ConnectionEffect.Neutral := by
  induction starts with
  | nil => trivial
  | cons start starts ih =>
    refine Within.bind (within_effect trivial) fun now ↦ ?_
    split
    · trivial
    · exact ih

theorem within_awaitRefresh (reference : String) (starts : List String) (attempts : ℕ) :
    (OAuthBroker.awaitRefresh registry reference starts attempts).Within
      ConnectionEffect.Neutral := by
  induction attempts with
  | zero => trivial
  | succ attempts ih =>
    refine Within.bind (within_effect trivial) fun _ ↦ ?_
    refine Within.bind (within_attempted (within_effect trivial)) fun refreshed ↦ ?_
    refine (within_someNeedsRefresh _ _).bind fun needs ↦ ?_
    split
    · exact ih
    · trivial

theorem within_refreshTokens (reference : String) (starts : List String) :
    ∀ replacement, (OAuthBroker.refreshTokens registry reference replacement starts).Within
      ConnectionEffect.Neutral := by
  induction starts with
  | nil =>
    intro replacement
    trivial
  | cons start starts ih =>
    intro replacement
    refine Within.bind (within_effect trivial) fun now ↦ ?_
    split
    · refine Within.bind (within_effect trivial) fun _ ↦ ?_
      refine Within.bind (within_attempted (within_effect trivial)) fun response ↦ ?_
      split
      · trivial
      · exact ih _
    · exact ih replacement

theorem within_refreshOrWait (reference : String) (connection : IntegrationConnection)
    (credential : IntegrationCredential) :
    (OAuthBroker.refreshOrWait registry reference connection credential).Within
      ConnectionEffect.Neutral := by
  have hrefresh : (OAuthBroker.refresh registry reference connection credential).Within
      ConnectionEffect.Neutral := by
    refine Within.bind (within_attempted (within_effect trivial)) fun _ ↦ ?_
    refine (within_refreshTokens _ _ _).bind fun replacement ↦ ?_
    exact Within.bind (within_acknowledged (within_effect trivial)) fun _ ↦ trivial
  refine Within.bind (within_effect trivial) fun token ↦ ?_
  refine Within.bind (within_effect trivial) fun now ↦ ?_
  refine Within.bind (within_effect trivial) fun r ↦ ?_
  cases r with
  | unknown => trivial
  | conflict => exact within_awaitRefresh _ _ _
  | done =>
    refine Within.bind (Within.catching (hrefresh.bind fun _ ↦ trivial) fun _ ↦ trivial)
      fun outcome ↦ ?_
    refine Within.bind (within_effect trivial) fun _ ↦ ?_
    cases outcome with
    | ok credential => trivial
    | error failure => trivial

theorem within_readRecord (reference : String) (connection : IntegrationConnection) :
    (OAuthBroker.readRecord registry reference connection).Within ConnectionEffect.Neutral := by
  refine Within.bind (within_attempted (within_effect trivial)) fun credential ↦ ?_
  split
  · trivial
  · refine Within.bind (within_ofExcept _) fun _ ↦ ?_
    refine (within_someNeedsRefresh _ _).bind fun needs ↦ ?_
    split
    · refine (within_requireRefreshTokens _ _ _).bind fun _ ↦ ?_
      split
      · exact within_refreshOrWait _ _ _
      · trivial
    · trivial

end

/-! ## Methods -/

section

variable {registry : ConnectionRegistry} {p : ℕ × ConnectionCall} {P : ConnectionWorld → Prop}
  {connection : IntegrationConnection}

/-- A program of harmless requests. -/
theorem yields_harmless {α : Type} {m : ConnectionProg α}
    (h : m.Within ConnectionEffect.Harmless) :
    (revocationSetting registry).Yields p m fun _ ↦ True := by
  refine yields_of_within (fun e he w x a w' hw _ _ ha ↦ ?_) h
  rcases he with hneutral | ⟨id, rfl⟩
  · have hstep : NeutralStep w w' := neutralStep_of_handle hneutral ha
    exact ⟨hw.neutral hstep, revocationStep_of_neutral hstep, trivial⟩
  · cases ha
    exact ⟨hw.look p.1 id, revocationStep_look, trivial⟩

/-- A connection that was just read is what it was read as. -/
theorem meets_readConnection (id : String) :
    (revocationSetting registry).Meets p (fun _ ↦ True) (effect (.getConnection id))
      (fun found w ↦ ∀ connection ∈ found, Knows p.1 connection w) fun _ _ ↦ True := by
  refine meets_perform stable_true fun w x a w' hw _ _ ha ↦ ?_
  cases ha
  refine ⟨hw.look p.1 id, revocationStep_look, fun connection hconnection ↦ ?_⟩
  have hid : connection.connectionId = id := (hw.keyed id connection hconnection).1
  refine ⟨⟨connection, hid.symm ▸ hconnection⟩, fun hstatus _ ⟨stored, hstored, hrevoked⟩ ↦ ?_⟩
  rw [hid] at hstored
  obtain rfl := Option.some.inj (hstored.symm.trans hconnection)
  exact hstatus hrevoked

theorem meets_getConnection (selector : String) :
    (revocationSetting registry).Meets p (fun _ ↦ True)
      (ConnectionService.getConnection selector)
      (fun found w ↦ ∀ connection ∈ found, Knows p.1 connection w) fun _ _ ↦ True := by
  refine Meets.bind (meets_readConnection selector) fun found ↦ ?_
  cases found with
  | some connection => exact meets_ret fun _ _ h ↦ h
  | none =>
    have halias : (revocationSetting registry).Yields p (effect (.getAlias selector))
        fun _ ↦ True :=
      yields_neutral (within_effect trivial)
    refine (halias.andThen fun id _ ↦ ?_).pre fun _ _ _ ↦ trivial
    cases id with
    | none => exact meets_ret fun _ _ _ connection h ↦ by cases h
    | some id => exact meets_readConnection id

theorem meets_requiredConnection (selector : String) :
    (revocationSetting registry).Meets p (fun _ ↦ True)
      (ConnectionService.requiredConnection selector)
      (fun connection w ↦ Knows p.1 connection w) fun _ _ ↦ True := by
  refine Meets.bind (meets_getConnection selector) fun found ↦ ?_
  cases found with
  | some connection => exact meets_ret fun _ _ h ↦ h connection rfl
  | none => exact meets_raise fun _ _ _ ↦ trivial

/-- A call that writes the record back knows as much of it as before. -/
theorem keeps_putConnection {known : IntegrationConnection}
    (hid : connection.connectionId = known.connectionId)
    (hstatus : connection.status ≠ .revoked → known.status ≠ .revoked) :
    (revocationSetting registry).Meets p (Knows p.1 known)
      (ConnectionService.putConnection connection) (fun _ ↦ Knows p.1 known)
      fun _ ↦ Knows p.1 known := by
  refine Meets.bind (M := fun _ ↦ Knows p.1 known) ?_ fun r ↦ ?_
  · refine meets_perform stable_knows fun w x a w' hw hknown hx ha ↦ ?_
    have hput : (revocationSetting registry).Meets p _ _ _ _ := meets_putConnection hid hstatus
    obtain ⟨P, -, hp, hk⟩ := hput w hw hknown
    obtain ⟨hw', hstep, hknown', -⟩ := hk hw hp hx ha
    exact ⟨hw', hstep, hknown'⟩
  · cases r with
    | done => exact meets_ret fun _ _ h ↦ h
    | conflict => exact meets_raise fun _ _ h ↦ h
    | unknown => exact meets_raise fun _ _ h ↦ h

theorem meets_getBinding {id : String} (hP : (revocationSetting registry).Stable p P) :
    (revocationSetting registry).Meets p P (effect (.getBinding id))
      (fun found w ↦ P w ∧ ∀ binding ∈ found, binding.connectionId = id ∧
        BoundTo id binding.reference w) fun _ _ ↦ True := by
  refine meets_perform hP fun w x a w' hw hp _ ha ↦ ?_
  cases ha
  refine ⟨hw, .refl p.1 w, hp, fun binding hbinding ↦ ?_⟩
  exact ⟨(hw.bound id binding hbinding).1, binding, hbinding, rfl⟩

/-- Only what was read as not revoked is written as expired. -/
theorem keeps_expire {code : String} (hactive : connection.status ≠ .revoked) :
    (revocationSetting registry).Meets p (Knows p.1 connection)
      (ConnectionService.expire connection code) (fun _ ↦ Knows p.1 connection)
      fun _ ↦ Knows p.1 connection := by
  have hupdate : (revocationSetting registry).Meets p (Knows p.1 connection)
      (ConnectionService.updateStatus connection .expired) (fun _ ↦ Knows p.1 connection)
      fun _ ↦ Knows p.1 connection := by
    rw [ConnectionService.updateStatus]
    split
    · exact meets_ret fun _ _ h ↦ h
    · refine Meets.bind (keeps_knows within_now) fun now ↦ ?_
      exact Meets.bind (keeps_putConnection rfl fun _ ↦ hactive) fun _ ↦ meets_ret fun _ _ h ↦ h
  refine Meets.bind hupdate fun expired ↦ ?_
  exact Meets.bind (keeps_knows (within_recordHealth _ _ _)) fun _ ↦ meets_ret fun _ _ h ↦ h

theorem yields_rename (selector displayName : String) :
    (revocationSetting registry).Yields p (ConnectionService.rename registry selector displayName)
      fun _ ↦ True := by
  refine Meets.bind (meets_requiredConnection selector) fun connection ↦ ?_
  cases registry.displayName displayName with
  | none => exact meets_raise fun _ _ _ ↦ trivial
  | some name =>
    have hrest : (revocationSetting registry).Meets p (Knows p.1 connection)
        (do
          let now ← effect .now
          let updated := { connection with displayName := some name, updatedAt := now }
          ConnectionService.putConnection updated
          pure updated : ConnectionProg IntegrationConnection)
        (fun _ ↦ Knows p.1 connection) fun _ ↦ Knows p.1 connection := by
      refine Meets.bind (keeps_knows within_now) fun now ↦ ?_
      -- The status is written as it was read.
      exact Meets.bind (keeps_putConnection rfl fun h ↦ h) fun _ ↦ meets_ret fun _ _ h ↦ h
    exact hrest.conseq (fun _ _ h ↦ h) (fun _ _ _ _ ↦ trivial) fun _ _ _ _ ↦ trivial

/-- What the check ends with finds the connection known as before. -/
theorem keeps_checkConnection (reference : String) (hactive : connection.status ≠ .revoked) :
    (revocationSetting registry).Meets p (Knows p.1 connection)
      (ConnectionService.checkConnection registry connection reference)
      (fun _ ↦ Knows p.1 connection) fun _ ↦ Knows p.1 connection := by
  refine Meets.bind (keeps_knows (within_readRecord reference connection)) fun credential ↦ ?_
  refine Meets.bind (keeps_knows (within_verifyCredential _ _ _)) fun verified ↦ ?_
  split
  · refine Meets.bind (keeps_knows within_now) fun now ↦ ?_
    refine Meets.bind (keeps_putConnection rfl fun _ ↦ hactive) fun _ ↦ ?_
    exact Meets.bind (keeps_knows (within_recordHealth _ _ _)) fun _ ↦ meets_ret fun _ _ h ↦ h
  · exact keeps_expire hactive

theorem yields_test (selector : String) :
    (revocationSetting registry).Yields p (ConnectionService.test registry selector)
      fun _ ↦ True := by
  refine Meets.bind (meets_requiredConnection selector) fun connection ↦ ?_
  split
  · exact meets_raise fun _ _ _ ↦ trivial
  next hactive =>
  have hexpire : ∀ code, (revocationSetting registry).Meets p (Knows p.1 connection)
      (ConnectionService.expire connection code) (fun _ _ ↦ True) fun _ _ ↦ True := fun code ↦
    (keeps_expire hactive).conseq (fun _ _ h ↦ h) (fun _ _ _ _ ↦ trivial) fun _ _ _ _ ↦ trivial
  refine Meets.bind (meets_getBinding stable_knows) fun found ↦ ?_
  cases found with
  | none => exact (hexpire _).pre fun _ _ h ↦ h.1
  | some binding =>
    refine Meets.catching ((keeps_checkConnection binding.reference hactive).conseq
      (fun _ _ h ↦ h.1) (fun _ _ _ _ ↦ trivial) fun _ _ _ h ↦ h) fun failure ↦ ?_
    cases failure with
    | unavailable =>
      refine Meets.bind ((keeps_knows (within_recordHealth _ _ _)).conseq (fun _ _ h ↦ h)
        (fun _ _ _ h ↦ h) fun _ _ _ _ ↦ trivial) fun health ↦ ?_
      exact meets_ret fun _ _ _ ↦ trivial
    | validation message => exact hexpire _
    | error message => exact meets_raise fun _ _ _ ↦ trivial

/-- The binding is written back beside the record, whose connection stays known. -/
theorem keeps_putCredentialBinding {binding : IntegrationCredentialBinding}
    (hid : binding.connectionId = connection.connectionId) :
    (revocationSetting registry).Meets p
      (fun w ↦ Knows p.1 connection w ∧ BoundTo connection.connectionId binding.reference w)
      (acknowledged (effect (.putCredentialBinding binding))) (fun _ ↦ Knows p.1 connection)
      fun _ ↦ Knows p.1 connection := by
  have hput : (revocationSetting registry).Meets p
      (fun w ↦ Knows p.1 connection w ∧ BoundTo binding.connectionId binding.reference w)
      (acknowledged (effect (.putCredentialBinding binding)))
      (fun _ w ↦ Knows p.1 connection w ∧ True) fun _ w ↦ Knows p.1 connection w ∧ True := by
    refine Meets.frame_within (R := (· = .putCredentialBinding binding)) stable_knows ?_
      (within_acknowledged (within_effect rfl)) (meets_written meets_putCredentialBinding)
    rintro _ w x a w' rfl _ _ _ ha _ hknown
    rcases Fate.settle_cases (Option.some.inj ha) with ⟨hnext, -⟩ | ⟨rfl, -⟩
    · cases hnext
      exact hknown
    · exact hknown
  rw [hid] at hput
  exact hput.conseq (fun _ _ h ↦ h) (fun _ _ _ h ↦ h.1) fun _ _ _ h ↦ h.1

theorem yields_rotate_bound (selector : String) (credential : IntegrationCredential) :
    (revocationSetting registry).Yields p
      (ConnectionService.rotate registry selector credential) fun _ ↦ True := by
  refine Meets.bind (meets_requiredConnection selector) fun connection ↦ ?_
  split
  · exact meets_raise fun _ _ _ ↦ trivial
  next hactive =>
  extract_lets scheme
  split
  · exact meets_raise fun _ _ _ ↦ trivial
  have forget : ∀ {α : Type} {m : ConnectionProg α} {Q : α → ConnectionWorld → Prop},
      (revocationSetting registry).Meets p (Knows p.1 connection) m Q
        (fun _ ↦ Knows p.1 connection) →
      (revocationSetting registry).Meets p (Knows p.1 connection) m Q fun _ _ ↦ True :=
    fun h ↦ h.conseq (fun _ _ h ↦ h) (fun _ _ _ h ↦ h) fun _ _ _ _ ↦ trivial
  refine Meets.bind (forget (keeps_knows (within_requireFields _ _ _))) fun _ ↦ ?_
  refine Meets.bind (forget (keeps_knows (within_verifyCredential _ _ _))) fun verified ↦ ?_
  split
  · exact meets_raise fun _ _ _ ↦ trivial
  refine Meets.bind (meets_getBinding stable_knows) fun found ↦ ?_
  cases found with
  | none => exact meets_raise fun _ _ _ ↦ trivial
  | some binding =>
    intro w hw ⟨hknown, hfound⟩
    obtain ⟨hid, hbound⟩ := hfound binding rfl
    let F (w : ConnectionWorld) : Prop :=
      Knows p.1 connection w ∧ BoundTo connection.connectionId binding.reference w
    have hkeeps : ∀ {α : Type} {m : ConnectionProg α}, m.Within ConnectionEffect.Neutral →
        (revocationSetting registry).Meets p F m (fun _ ↦ F) fun _ _ ↦ True := by
      intro α m hm
      refine (keeps_neutral (stable_knows.and (permanent_boundTo _ _).stable) ?_ hm).conseq
        (fun _ _ h ↦ h) (fun _ _ _ h ↦ h) fun _ _ _ _ ↦ trivial
      rintro w w' hstep ⟨hknown, hbound⟩
      exact ⟨hknown.neutral hstep, by rw [BoundTo, hstep.bindings]; exact hbound⟩
    refine Meets.bind (hkeeps (within_acknowledged (within_effect trivial))) (fun _ ↦ ?_) w hw
      ⟨hknown, hbound⟩
    refine Meets.bind (hkeeps within_now) fun timestamp ↦ ?_
    have hid' : ({ binding with updatedAt := timestamp } :
        IntegrationCredentialBinding).connectionId = connection.connectionId := hid
    refine Meets.bind ((keeps_putCredentialBinding hid').conseq (fun _ _ h ↦ h) (fun _ _ _ h ↦ h)
      fun _ _ _ _ ↦ trivial) fun _ ↦ ?_
    refine Meets.bind (forget (keeps_putConnection rfl fun _ ↦ hactive)) fun _ ↦ ?_
    exact Meets.bind (forget (keeps_knows (within_recordHealth _ _ _))) fun _ ↦
      meets_ret fun _ _ _ ↦ trivial

/-- The record is revoked before the secret. -/
theorem yields_revoke (selector : String) :
    (revocationSetting registry).Yields p (ConnectionService.revoke selector) fun _ ↦ True := by
  refine Meets.bind (meets_requiredConnection selector) fun connection ↦ ?_
  refine Meets.bind ((keeps_knows within_now).conseq (fun _ _ h ↦ h) (fun _ _ _ h ↦ h)
    fun _ _ _ _ ↦ trivial) fun now ↦ ?_
  have hid : (connectionWithStatus connection .revoked now).connectionId =
      connection.connectionId := rfl
  have hput : (revocationSetting registry).Meets p (Knows p.1 connection)
      (effect (.putConnection (connectionWithStatus connection .revoked now)))
      (fun r w ↦ (r = .done → RevokedAt connection.connectionId w) ∧ (r ≠ .done → True))
      fun _ _ ↦ True :=
    (meets_putConnection hid fun h ↦ absurd rfl h).conseq (fun _ _ h ↦ h)
      (fun _ _ _ h ↦ ⟨fun hdone ↦ h.2 hdone rfl, fun _ ↦ trivial⟩) fun _ _ _ h ↦ h
  refine Meets.bind (meets_acknowledged hput) fun _ ↦ ?_
  refine Meets.bind (meets_getBinding (permanent_revokedAt _).stable) fun found ↦ ?_
  cases found with
  | none => exact meets_ret fun _ _ _ ↦ trivial
  | some binding =>
    have hrevoke : (revocationSetting registry).Meets p
        (fun w ↦ RevokedAt connection.connectionId w ∧
          BoundTo connection.connectionId binding.reference w)
        (effect (.revokeSecret binding.reference)) (fun _ _ ↦ True) fun _ _ ↦ True := by
      refine meets_revokeSecret ((permanent_revokedAt _).stable.and (permanent_boundTo _ _).stable)
        (fun w hw h id c b hc hb hactive heq ↦ ?_) fun w h ↦ .inr ⟨_, h.2⟩
      obtain ⟨⟨stored, hstored, hrevoked⟩, b', hb', hreference⟩ := h
      have hid : id = connection.connectionId :=
        hw.unique id _ b b' hb hb' (heq.trans hreference.symm)
      subst hid
      obtain rfl := Option.some.inj (hc.symm.trans hstored)
      exact hactive hrevoked
    refine Meets.bind ((meets_written hrevoke).pre fun w _ h ↦ ⟨h.1, (h.2 binding rfl).2⟩)
      fun _ ↦ meets_ret fun _ _ _ ↦ trivial

theorem yields_create (pluginId scheme : String) (credential : IntegrationCredential)
    (aliasName : Option String) :
    (revocationSetting registry).Yields p
      (ConnectionService.create registry pluginId scheme credential aliasName) fun _ ↦ True := by
  rw [ConnectionService.create]
  split
  · exact yields_raise
  refine (yields_neutral (within_requireFields _ _ _)).bind fun _ _ ↦ ?_
  refine (yields_neutral (within_verifyCredential _ _ _)).bind fun verified _ ↦ ?_
  split
  · exact yields_raise
  refine (yields_harmless (within_chooseAlias _ _ _)).bind fun chosen _ ↦ ?_
  refine Yields.bind (F := fun _ ↦ True) (yields_neutral (within_effect trivial))
    fun connectionId _ ↦ ?_
  refine (yields_neutral within_now).bind fun timestamp _ ↦ ?_
  refine Meets.bind (meets_attempted meets_createSecret) fun reference ↦ ?_
  have hbundle : (revocationSetting registry).Meets p (FreshSecret p.1 reference)
      (acknowledged (effect (.putConnectionBundle
        (newConnection connectionId pluginId chosen verified timestamp)
        ⟨connectionId, reference, timestamp, timestamp⟩)))
      (fun _ _ ↦ True) fun _ ↦ FreshSecret p.1 reference :=
    meets_acknowledged (meets_putConnectionBundle rfl rfl)
  -- A bundle that was not stored leaves the secret to the call.
  refine Meets.bind (Meets.catching hbundle fun failure ↦ ?_) fun _ ↦ meets_ret fun _ _ _ ↦ trivial
  refine Meets.bind (meets_revokeSecret stable_freshSecret
    (fun w _ h id c b _ hb _ ↦ h.2.1 id b hb) fun w h ↦ .inl h.1) fun _ ↦ ?_
  exact meets_raise fun _ _ _ ↦ trivial

end

/-! ## Runs -/

/-- The world without connections. -/
def ConnectionWorld.unconnected : ConnectionWorld :=
  ⟨fun _ ↦ none, fun _ ↦ none, fun _ ↦ none, fun _ ↦ none, fun _ ↦ none, fun _ ↦ none, [], [], [],
    [], fun _ ↦ 0, fun _ ↦ 0⟩

theorem revocations_verified (registry : ConnectionRegistry) :
    (revocationSetting registry).Verified .unconnected (fun _ _ _ ↦ True) fun _ _ _ ↦ True where
  init := by
    constructor
    · exact List.nodup_nil
    · intro pid id
      exact le_rfl
    · intro id connection h
      cases h
    · intro id binding h
      cases h
    · intro id id' binding binding' h
      cases h
    · intro id connection binding h
      cases h
  body := by
    rintro ⟨pid, call⟩
    suffices h : (revocationSetting registry).Yields (pid, call) (connectionBody registry call)
        fun _ ↦ True from fun w hw _ ↦ h w hw trivial
    cases call with
    | readRecord reference connection =>
      exact (yields_neutral (within_readRecord _ _)).bind fun _ _ ↦ yields_ret trivial
    | create => exact (yields_create _ _ _ _).bind fun _ _ ↦ yields_ret trivial
    | rename => exact (yields_rename _ _).bind fun _ _ ↦ yields_ret trivial
    | test => exact (yields_test _).bind fun _ _ ↦ yields_ret trivial
    | rotate => exact (yields_rotate_bound _ _).bind fun _ _ ↦ yields_ret trivial
    | revoke => exact (yields_revoke _).bind fun _ _ ↦ yields_ret trivial
  post_stable _ _ := stable_true
  fail_stable _ _ := stable_true

/-- Revoked connections stay revoked from here on, and those that are not have a secret which no
call has revoked. -/
structure RevocationHolds (registry : ConnectionRegistry)
    (D : Discipline ConnectionWorld ConnectionEffect ConnectionCall ConnectionChoice)
    (c : Config ConnectionWorld ConnectionEffect ConnectionEffect.Answer ConnectionFailure
      ConnectionResult ConnectionCall) : Prop where
  final : ∀ c', Leads (connectionService registry) D c c' → ∀ id connection,
    c.state.connections id = some connection → connection.status = .revoked →
      ∃ connection', c'.state.connections id = some connection' ∧ connection'.status = .revoked
  usable : ∀ id connection, c.state.connections id = some connection →
    connection.status ≠ .revoked → ∃ binding, c.state.bindings id = some binding ∧
      ¬c.state.SecretRevoked binding.reference

/-- **Revocation is final and matches the secret**, in every run of the discipline. -/
theorem revocation_holds {registry : ConnectionRegistry}
    {c : Config ConnectionWorld ConnectionEffect ConnectionEffect.Answer ConnectionFailure
      ConnectionResult ConnectionCall}
    (hc : Reachable (connectionService registry) revocationDiscipline .unconnected c) :
    RevocationHolds registry revocationDiscipline c := by
  have hV := revocations_verified registry
  have hsound := hV.reachable hc
  have hw : c.state.Usable := hsound.inv
  constructor
  · intro c' hleads id connection hconnection hrevoked
    -- Revocation is permanent: no step of any call ends it, so neither does a run.
    have hkeeps : RevokedAt id c.state → RevokedAt id c'.state :=
      hV.future (fun w w' ↦ RevokedAt id w → RevokedAt id w') (fun _ h ↦ h)
        (fun h h' hr ↦ h' (h hr)) (fun hs ht _ _ hg ↦ permanent_revokedAt id hs ht hg) hsound hleads
    exact hkeeps ⟨connection, hconnection, hrevoked⟩
  · intro id connection hconnection hstatus
    obtain ⟨-, binding, hbinding⟩ := hw.keyed id connection hconnection
    exact ⟨binding, hbinding, hw.usable id connection binding hconnection hbinding hstatus⟩

/-! ## A run -/

/-- A connection is created. The last choice answers the request that stores it. -/
def sampleCreation (bundle : ConnectionChoice) : List (Event ConnectionCall ConnectionChoice) :=
  .start 0 (.create "github" "token" [("access_token", "a0")] (some "work")) ::
    ([{ verified := ⟨"Work", none, none, ⟨"token", "null"⟩⟩ }, {}, {}, { text := "connection" }, {},
      { text := "secret" }, bundle] : List ConnectionChoice).map (.resume 0 ·)

/-- One call reads the connection to rename it, and another revokes it. -/
def sampleRevocation : List (Event ConnectionCall ConnectionChoice) :=
  sampleCreation {} ++ [.start 1 (.rename "connection" "Renamed"), .resume 1 {},
    .start 2 (.revoke "connection")] ++
      ([{}, {}, {}, {}, {}] : List ConnectionChoice).map (.resume 2 ·)

/-- The status of the connection, and whether its secret is revoked. -/
def sampleStatus (w : ConnectionWorld) : Option ConnectionStatus × Option Bool :=
  ((w.connections "connection").map (·.status),
    ((w.bindings "connection").bind fun binding ↦ w.secrets binding.reference).map (·.revoked))

/-- A rename writes a connection back that was revoked in the meantime; and the clean-up of a
creation revokes the secret of a connection that was stored after all. -/
theorem revocation_undone :
    (∃ c c', Reachable (connectionService sampleRegistry) .free .unconnected c ∧
      Leads (connectionService sampleRegistry) .free c c' ∧
      sampleStatus c.state = (some .revoked, some true) ∧
      sampleStatus c'.state = (some .active, some true)) ∧
    ∃ c, Reachable (connectionService sampleRegistry) .free .unconnected c ∧
      sampleStatus c.state = (some .active, some true) := by
  constructor
  · have hbefore : ((connectionService sampleRegistry).run .free sampleRevocation
        (.initial .unconnected)).map (fun c ↦ sampleStatus c.state) =
        some (some .revoked, some true) := by decide
    have hafter : ((connectionService sampleRegistry).run .free sampleRevocation
        (.initial .unconnected)).bind (fun c ↦
          ((connectionService sampleRegistry).run .free [.resume 1 {}, .resume 1 {}] c).map
            fun c' ↦ sampleStatus c'.state) = some (some .active, some true) := by decide
    obtain ⟨c, hc, hrevoked⟩ := Option.map_eq_some_iff.mp hbefore
    rw [hc, Option.bind_some] at hafter
    obtain ⟨c', hc', hactive⟩ := Option.map_eq_some_iff.mp hafter
    exact ⟨c, c', leads_of_run hc, leads_of_run hc', hrevoked, hactive⟩
  · have hlost : ((connectionService sampleRegistry).run .free
        (sampleCreation { fate := .unacknowledged } ++ [.resume 0 {}])
          (.initial .unconnected)).map (fun c ↦ sampleStatus c.state) =
        some (some .active, some true) := by decide
    obtain ⟨c, hc, hactive⟩ := Option.map_eq_some_iff.mp hlost
    exact ⟨c, leads_of_run hc, hactive⟩

instance : revocationDiscipline.Checked where
  starts _ _ _ := .isTrue trivial
  answers pid e x w :=
    match e with
    | .putConnection connection => inferInstanceAs (Decidable (connection.status ≠ .revoked →
        x.fate = .acknowledged ∨ x.fate = .unacknowledged →
          w.seen (pid, connection.connectionId) = w.revocations connection.connectionId))
    | .putConnectionBundle connection binding => inferInstanceAs (Decidable
        (x.fate = .unacknowledged → w.putConnectionBundle connection binding = none))
    | .getConnection _ | .getAlias _ | .getBinding _ | .getHealth _ | .putCredentialBinding _
    | .putHealth _ _ | .createSecret _ _ | .readSecret _ | .replaceSecret _ _ _ | .revokeSecret _
    | .acquireRefreshLock _ _ _ _ | .releaseRefreshLock _ _ | .application _ | .exchangeToken _ _ _
    | .verifyCredential _ _ _ | .random | .now | .sleep => .isTrue trivial

/-- After the revocation, a third call reads the connection and renames it. -/
def sampleLateRename : List (Event ConnectionCall ConnectionChoice) :=
  sampleRevocation ++ [.start 3 (.rename "connection" "Renamed"), .resume 3 {}, .resume 3 {},
    .resume 3 {}]

theorem sampleRevocation_holds :
    ∃ c, (connectionService sampleRegistry).run revocationDiscipline sampleLateRename
        (.initial .unconnected) = some c ∧
      sampleStatus c.state = (some .revoked, some true) ∧
      RevocationHolds sampleRegistry revocationDiscipline c := by
  have hrun : ((connectionService sampleRegistry).run revocationDiscipline sampleLateRename
      (.initial .unconnected)).map (fun c ↦ sampleStatus c.state) =
      some (some .revoked, some true) := by decide
  obtain ⟨c, hc, hstatus⟩ := Option.map_eq_some_iff.mp hrun
  exact ⟨c, hc, hstatus, revocation_holds (leads_of_run hc)⟩

end RatThings
