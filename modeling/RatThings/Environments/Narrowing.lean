import Mathlib.Data.Set.Basic
import Mathlib.Logic.Relation
import RatThings.Library.Fallible

/-!
# Environments and forks only narrow the network

An environment template, the configuration that a Session makes of it, the Session and its forks
each have a network policy. A field that is supplied replaces the inherited one as a whole, and what
is checked is the policy that is supplied against the one it replaces. A missing policy and `null`
both let nothing through, but only a missing one inherits.

Of the fields of an environment only its network is looked into. The others are a parameter: how
supplied fields replace inherited ones, and which values are refused.

## What a policy lets through

A policy admits a set of hosts: none, all, or those of its list and their subdomains where it says
so. Each step of the source is shown to yield a subset of these sets, from what it checks. A
template is narrowed by a configuration, a configuration becomes a Session, and a fork is checked
against the configuration that its source is taken for.

A chain is any number of such steps (`Narrows`), and the theorem says that every step of a chain
narrows what can be reached, from wherever it starts.
-/

namespace RatThings.Environments

open Concurrent

/-! ## Policies -/

inductive NetworkAccess : Type
  | disabled
  | restricted
  | enabled
deriving DecidableEq, Repr

/-- The policy of a request. `allowed_domains` may be missing or `null`. -/
structure NetworkParam where
  access : NetworkAccess
  allowedDomains : Option (List (List Char))
deriving DecidableEq, Repr

def NetworkParam.domains (network : NetworkParam) : List (List Char) :=
  network.allowedDomains.getD []

/-- The policy of a Session. -/
structure SessionNetwork where
  access : NetworkAccess
  allowedDomains : List (List Char)
deriving DecidableEq, Repr

/-- A template or a hosted configuration. The network may be missing, and it may be `null`. -/
structure HostedConfiguration (F : Type) where
  network : Option (Option NetworkParam)
  fields : F

/-- `template.network ?? { access: 'disabled' }` -/
def HostedConfiguration.policy {F : Type} (configuration : HostedConfiguration F) : NetworkParam :=
  configuration.network.join.getD ⟨.disabled, none⟩

/-- `publicTemplate(input).network` -/
def HostedConfiguration.publicNetwork {F : Type} (configuration : HostedConfiguration F) :
    SessionNetwork where
  access := (configuration.network.join.map (·.access)).getD .disabled
  allowedDomains := (configuration.network.join.bind (·.allowedDomains)).getD []

/-- What is made of the fields other than the network. -/
structure FieldRules (F : Type) where
  /-- No field is supplied. -/
  missing : F
  /-- The supplied fields in place of the inherited ones. -/
  replace : F → F → F
  /-- The message and the field of the first check that fails. -/
  refuses : F → Option (String × String)

/-- The message and the field of an invalid request. -/
abbrev Invalid := String × String

/-! ## Templates

A domain is compared in lower case, and a label has the characters that a host name may have. -/

def isAlphanumeric (c : Char) : Bool :=
  'a' ≤ c && c ≤ 'z' || 'A' ≤ c && c ≤ 'Z' || '0' ≤ c && c ≤ '9'

/-- A label of a host name. -/
def validLabel (label : List Char) : Bool :=
  label.length ≤ 63 && label.all (fun c ↦ isAlphanumeric c || c = '-') &&
    label.head?.any isAlphanumeric && label.getLast?.any isAlphanumeric

def validDomain (value : List Char) : Bool :=
  value.length ≤ 253 && (value.splitOn '.').all validLabel

variable {F : Type} (rules : FieldRules F)

def templateConfiguration (input : HostedConfiguration F)
    (previous : Option (HostedConfiguration F)) : Except Invalid (HostedConfiguration F) :=
  let configured : HostedConfiguration F := {
    network := input.network.or (previous.bind (·.network))
    fields := rules.replace input.fields ((previous.map (·.fields)).getD rules.missing) }
  match rules.refuses configured.fields with
  | some refusal => .error refusal
  | none =>
    if !((configured.network.join.map (·.domains)).getD []).all validDomain then
      .error ("Network allowlists require exact hostnames without wildcards, URLs, or ports",
        "network.allowed_domains")
    else if configured.network.join.any fun network ↦ network.access = .restricted &&
        (network.domains.isEmpty || network.domains.length > 100) then
      .error ("Restricted network access requires 1–100 exact hostnames",
        "network.allowed_domains")
    else .ok configured

variable (toLowerCase : List Char → List Char)

def domainWithin (domain allowed : List Char) : Bool := toLowerCase domain = toLowerCase allowed

/-- The policy that a request supplies, checked against the one it inherits. -/
def withinPolicy (inherited : NetworkParam) (requested : Option NetworkParam) :
    Except Invalid Unit :=
  match requested with
  | none =>
    .error ("Session network access cannot broaden the template policy", "environment.network")
  | some requested =>
    if requested.access = .enabled ∨
        inherited.access = .disabled ∧ requested.access ≠ .disabled then
      .error ("Session network access cannot broaden the template policy", "environment.network")
    else if requested.access = .restricted ∧ requested.domains.any fun domain ↦
        !inherited.domains.any fun allowed ↦ domainWithin toLowerCase domain allowed then
      .error ("Session domains must be within the template policy",
        "environment.network.allowed_domains")
    else .ok ()

def resolveHostedEnvironment (template : Option (HostedConfiguration F))
    (inline : HostedConfiguration F) : Except Invalid (HostedConfiguration F) := do
  let configured ← templateConfiguration rules inline template
  match template, inline.network with
  | some inherited, some requested =>
    if inherited.policy.access = .enabled then pure configured
    else do
      withinPolicy toLowerCase inherited.policy requested
      pure configured
  | _, _ => pure configured

/-! ## Forks -/

/-- What a fork looks at in its source. -/
structure ForkSource where
  /-- The network of a hosted environment, nothing for another kind. -/
  network : Option SessionNetwork
  idle : Bool
  requiredActions : ℕ
  vaultIds : List String
deriving DecidableEq, Repr

/-- A request for a fork. What may be missing may also be `null`. -/
structure SessionForkParams where
  metadata : Option (List (String × String))
  vaultIds : Option (List String)
  network : Option NetworkParam
  input : Option String
deriving DecidableEq, Repr

structure SessionForkPlan where
  input : Option String
  metadata : List (String × String)
  vaultIds : List String
  network : SessionNetwork
deriving DecidableEq, Repr

/-- An error with its status and its field. -/
structure ForkRefusal where
  status : ℕ
  message : String
  param : Option String
deriving DecidableEq, Repr

def invalid (refusal : Invalid) : ForkRefusal := ⟨400, refusal.1, some refusal.2⟩

def validateAgentMetadata (metadata : Option (List (String × String))) : Except ForkRefusal Unit :=
  let entries := metadata.getD []
  if entries.length > 16 then
    .error (invalid ("metadata supports at most 16 entries", "metadata"))
  else if entries.any fun entry ↦ entry.1.length > 64 || entry.2.length > 512 then
    .error
      (invalid ("metadata keys must be at most 64 characters and values at most 512 characters",
      "metadata"))
  else .ok ()

/-- The configuration that a Session is taken for when it is forked. -/
def SessionNetwork.configuration (network : SessionNetwork) (fields : F) : HostedConfiguration F :=
  ⟨some (some ⟨network.access, some network.allowedDomains⟩), fields⟩

def planSessionFork (source : ForkSource) (input : SessionForkParams) :
    Except ForkRefusal SessionForkPlan := do
  match source.network with
  | none => throw (invalid ("Forks require a managed environment", "environment"))
  | some network =>
    if !source.idle || source.requiredActions ≠ 0 then
      throw ⟨409, "Only idle Sessions can be forked.", none⟩
    validateAgentMetadata input.metadata
    let vaultIds := (input.vaultIds.getD source.vaultIds).eraseDups
    if vaultIds.any fun id ↦ !source.vaultIds.contains id then
      throw (invalid ("Fork vaults must be a subset of the source vaults", "vault_ids"))
    match resolveHostedEnvironment rules toLowerCase (some (network.configuration rules.missing))
        ⟨input.network.map some, rules.missing⟩ with
    | .error refusal => throw (invalid refusal)
    | .ok configuration =>
      let network := (configuration.network.join.map fun network ↦
        SessionNetwork.mk network.access network.domains).getD network
      pure ⟨input.input, input.metadata.getD [], vaultIds, network⟩

/-! ## What a policy lets through

The sets of hosts are the abstract side: the checks compare lists of texts, and what they guarantee
is said about sets. -/

/-- The hosts that a policy admits. -/
def SessionNetwork.hosts (network : SessionNetwork) : Set (List Char) :=
  match network.access with
  | .disabled => ∅
  | .restricted => {host | ∃ domain ∈ network.allowedDomains, toLowerCase host = toLowerCase domain}
  | .enabled => Set.univ

variable {rules toLowerCase}
variable {configuration configured inline : HostedConfiguration F} {source child : ForkSource}

theorem publicNetwork_eq (configuration : HostedConfiguration F) :
    configuration.publicNetwork = ⟨configuration.policy.access, configuration.policy.domains⟩ := by
  rcases h : configuration.network.join with _ | network
  · simp [HostedConfiguration.publicNetwork, HostedConfiguration.policy, NetworkParam.domains, h]
  · simp [HostedConfiguration.publicNetwork, HostedConfiguration.policy, NetworkParam.domains, h]

theorem policy_eq_of_network {network : Option NetworkParam}
    (h : configuration.network = some network) :
    configuration.policy = network.getD ⟨.disabled, none⟩ := by
  rw [HostedConfiguration.policy, h]
  rfl

/-- The network that is supplied takes the place of the inherited one. -/
theorem network_of_templateConfiguration {previous : Option (HostedConfiguration F)}
    (h : templateConfiguration rules inline previous = .ok configured) :
    configured.network = inline.network.or (previous.bind (·.network)) := by
  rw [templateConfiguration] at h
  split at h
  · exact nomatch h
  · split_ifs at h
    obtain rfl := Except.ok.inj h
    rfl

/-- What passes the check lets through no more than what it is checked against. -/
theorem hosts_of_withinPolicy {inherited : NetworkParam} {requested : Option NetworkParam}
    (h : withinPolicy toLowerCase inherited requested = .ok ()) :
    (SessionNetwork.mk (requested.getD ⟨.disabled, none⟩).access
      (requested.getD ⟨.disabled, none⟩).domains).hosts toLowerCase ⊆
      (SessionNetwork.mk inherited.access inherited.domains).hosts toLowerCase := by
  rcases requested with _ | ⟨access, domains⟩
  · exact nomatch h
  simp only [withinPolicy] at h
  split_ifs at h with hbroader hdomains
  rcases access with _ | _ | _
  · exact Set.empty_subset _
  · -- only a restricted policy can be narrowed to a restricted one
    rintro host ⟨domain, hdomain, hsame⟩
    rcases hinherited : inherited.access with _ | _ | _
    · exact absurd (.inr ⟨hinherited, nofun⟩) hbroader
    · have hall : ∀ domain ∈ domains.getD [], inherited.domains.any
          (fun allowed ↦ domainWithin toLowerCase domain allowed) = true := by
        intro domain hmem
        by_contra hnone
        exact hdomains ⟨rfl, List.any_eq_true.mpr ⟨domain, hmem, by simpa using hnone⟩⟩
      obtain ⟨allowed, hallowed, hwithin⟩ := List.any_eq_true.mp (hall domain hdomain)
      exact ⟨allowed, hallowed, hsame.trans (of_decide_eq_true hwithin)⟩
    · exact Set.mem_univ _
  · exact absurd (.inl rfl) hbroader

/-- **A configuration that is accepted narrows its template.** -/
theorem hosts_of_resolveHostedEnvironment
    (h : resolveHostedEnvironment rules toLowerCase (some configuration) inline = .ok configured) :
    configured.publicNetwork.hosts toLowerCase ⊆
      configuration.publicNetwork.hosts toLowerCase := by
  rw [resolveHostedEnvironment] at h
  obtain ⟨merged, hmerged, h⟩ := bind_eq_ok.mp h
  have hnetwork := network_of_templateConfiguration hmerged
  rw [publicNetwork_eq, publicNetwork_eq]
  rcases hinline : inline.network with _ | requested
  · -- nothing is supplied: the policy is inherited
    rw [hinline] at h hnetwork
    obtain rfl : merged = configured := Except.ok.inj h
    rw [HostedConfiguration.policy, hnetwork, HostedConfiguration.policy]
    exact subset_rfl
  · rw [hinline] at h hnetwork
    by_cases henabled : configuration.policy.access = .enabled
    · rw [henabled]
      exact Set.subset_univ _
    · simp only [if_neg henabled] at h
      obtain ⟨_, hwithin, h⟩ := bind_eq_ok.mp h
      obtain rfl : merged = configured := Except.ok.inj h
      rw [policy_eq_of_network hnetwork]
      exact hosts_of_withinPolicy hwithin

/-- What an accepted fork is made of. -/
theorem planSessionFork_eq_ok {input : SessionForkParams} {plan : SessionForkPlan}
    (h : planSessionFork rules toLowerCase source input = .ok plan) :
    (∀ id ∈ plan.vaultIds, id ∈ source.vaultIds) ∧ ∃ network, source.network = some network ∧
      plan.network.hosts toLowerCase ⊆ network.hosts toLowerCase := by
  rw [planSessionFork] at h
  rcases hsource : source.network with _ | network
  · rw [hsource] at h
    exact nomatch h
  rw [hsource] at h
  dsimp only at h
  split at h
  · exact nomatch h
  obtain ⟨_, -, h⟩ := bind_eq_ok.mp h
  split at h
  · exact nomatch h
  rename_i hvaults
  split at h
  · exact nomatch h
  rename_i configured hresolve
  obtain rfl := Except.ok.inj h
  refine ⟨fun id hid ↦ ?_, network, rfl, ?_⟩
  · by_contra hnone
    exact hvaults (List.any_eq_true.mpr ⟨id, hid, by simpa using hnone⟩)
  · -- the missing policy of the result would be the inherited one
    have hnarrow := hosts_of_resolveHostedEnvironment hresolve
    have hinherited : (network.configuration rules.missing).publicNetwork = network := rfl
    rw [hinherited, publicNetwork_eq] at hnarrow
    rcases hjoin : configured.network.join with _ | ⟨access, domains⟩
    · exact subset_rfl
    · rw [HostedConfiguration.policy, hjoin] at hnarrow
      exact hnarrow

/-! ## Chains

The step relation has one constructor for each way in which an environment comes from another
one. -/

/-- What can be narrowed: a template or a configuration, or a Session. -/
inductive Scope (F : Type) : Type
  | configuration (configuration : HostedConfiguration F)
  | session (session : ForkSource)

def Scope.hosts (toLowerCase : List Char → List Char) : Scope F → Set (List Char)
  | .configuration c => c.publicNetwork.hosts toLowerCase
  | .session s => {host | ∃ network, s.network = some network ∧ host ∈ network.hosts toLowerCase}

variable (rules toLowerCase)

/-- A fork, whatever becomes of its status. -/
inductive Forks (source child : ForkSource) : Prop
  | fork (input : SessionForkParams) (plan : SessionForkPlan)
      (hplan : planSessionFork rules toLowerCase source input = .ok plan)
      (hnetwork : child.network = some plan.network) (hvaults : child.vaultIds = plan.vaultIds)

/-- One step of a chain. -/
inductive Narrows : Scope F → Scope F → Prop
  | resolve {template inline configured : HostedConfiguration F}
      (h : resolveHostedEnvironment rules toLowerCase (some template) inline = .ok configured) :
      Narrows (.configuration template) (.configuration configured)
  /-- A Session is created from a configuration. -/
  | create {configuration : HostedConfiguration F} {session : ForkSource}
      (h : session.network = some configuration.publicNetwork) :
      Narrows (.configuration configuration) (.session session)
  /-- The policy of a Session is the template of a configuration. -/
  | template {session : ForkSource} {network : SessionNetwork} (fields : F)
      (h : session.network = some network) :
      Narrows (.session session) (.configuration (network.configuration fields))
  | fork {source child : ForkSource} (h : Forks rules toLowerCase source child) :
      Narrows (.session source) (.session child)

variable {rules toLowerCase}

theorem Narrows.hosts_subset {p q : Scope F} (h : Narrows rules toLowerCase p q) :
    q.hosts toLowerCase ⊆ p.hosts toLowerCase := by
  rcases h with h | h | ⟨fields, h⟩ | ⟨input, plan, hplan, hnetwork, -⟩
  · exact hosts_of_resolveHostedEnvironment h
  · rintro host ⟨network, hnetwork, hhost⟩
    obtain rfl := Option.some.inj (h.symm.trans hnetwork)
    exact hhost
  · exact fun host hhost ↦ ⟨_, h, hhost⟩
  · obtain ⟨network, hsource, hsubset⟩ := (planSessionFork_eq_ok hplan).2
    rintro host ⟨network', hnetwork', hhost⟩
    obtain rfl := Option.some.inj (hnetwork.symm.trans hnetwork')
    exact ⟨network, hsource, hsubset hhost⟩

/-- **A chain narrows what can be reached at each of its steps.** -/
theorem chain_narrows (rules : FieldRules F) (toLowerCase : List Char → List Char) :
    (∀ earlier later : Scope F, Relation.ReflTransGen (Narrows rules toLowerCase) earlier later →
      later.hosts toLowerCase ⊆ earlier.hosts toLowerCase) ∧
    ∀ ancestor fork : ForkSource, Relation.ReflTransGen (Forks rules toLowerCase) ancestor fork →
      ∀ id ∈ fork.vaultIds, id ∈ ancestor.vaultIds := by
  constructor
  · -- The induction is on the last step of the chain.
    intro earlier later h
    induction h with
    | refl => exact subset_rfl
    | tail _ hstep ih => exact hstep.hosts_subset.trans ih
  · intro ancestor fork h
    induction h with
    | refl => exact fun id hid ↦ hid
    | tail _ hstep ih =>
      obtain ⟨input, plan, hplan, -, hvaults⟩ := hstep
      exact fun id hid ↦ ih id ((planSessionFork_eq_ok hplan).1 id (hvaults ▸ hid))

/-! ## A chain -/

/-- There is nothing but the network. -/
def networkOnly : FieldRules Unit := ⟨(), fun _ _ ↦ (), fun _ ↦ none⟩

def sampleTemplate : HostedConfiguration Unit :=
  ⟨some (some ⟨.restricted, some [['a', '.', 'b'], ['c', '.', 'd']]⟩), ()⟩

def sampleConfiguration : HostedConfiguration Unit :=
  ⟨some (some ⟨.restricted, some [['A', '.', 'b']]⟩), ()⟩

def sampleSource : ForkSource := ⟨some ⟨.restricted, [['A', '.', 'b']]⟩, true, 0, ["v", "w"]⟩

def sampleFork : ForkSource := ⟨some ⟨.disabled, []⟩, false, 0, ["w"]⟩

theorem chain_narrows_sample :
    (Scope.session (F := Unit) sampleFork).hosts (List.map Char.toLower) ⊆
        (Scope.configuration sampleTemplate).hosts (List.map Char.toLower) ∧
      ∀ id ∈ sampleFork.vaultIds, id ∈ sampleSource.vaultIds := by
  have hfork : Forks networkOnly (List.map Char.toLower) sampleSource sampleFork :=
    ⟨⟨none, some ["w"], some ⟨.disabled, none⟩, none⟩, ⟨none, [], ["w"], ⟨.disabled, []⟩⟩, by
      decide, rfl, rfl⟩
  have hchain : Relation.ReflTransGen (Narrows networkOnly (List.map Char.toLower))
      (.configuration sampleTemplate) (.session sampleFork) :=
    ((Relation.ReflTransGen.single
      (.resolve (by rfl : resolveHostedEnvironment networkOnly (List.map Char.toLower)
        (some sampleTemplate) sampleConfiguration = .ok sampleConfiguration))).tail
      (.create (by rfl : sampleSource.network = some sampleConfiguration.publicNetwork))).tail
        (.fork hfork)
  exact ⟨(chain_narrows networkOnly (List.map Char.toLower)).1 _ _ hchain,
    (chain_narrows networkOnly (List.map Char.toLower)).2 _ _ (.single hfork)⟩

end RatThings.Environments
