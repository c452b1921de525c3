import RatThings.Redaction.Outputs

/-!
# Credentials in the headers of a request

A placeholder in a header of a request that leaves the environment is replaced by the secret of its
credential, if the request goes to a host of the credential over HTTPS. The text of a header is read
once, and what is inserted is not read again.

A secret that is not admitted plays no part in the result: two lists of credentials that differ in
such secrets give the same headers (`AgreeOn`). A text that occurs in the result may be a secret of
that kind nevertheless, since it can be put together of an admitted secret and what stands around
it, and then `OnlyAdmitted` fails. What holds of every text that occurs in the result, and did not
occur in the header, is that it meets the secret of a credential which is admitted and whose
placeholder was replaced there.
-/

namespace RatThings.Environments

open Concurrent Replacement Redaction

/-- What is looked at of a URL. -/
structure Destination where
  protocol : String
  port : String
  username : String
  password : String
  hostname : String
deriving DecidableEq, Repr

structure EnvironmentCredentialSubstitution where
  placeholder : Utf16
  secret : Utf16
  allowedHosts : List String
deriving DecidableEq, Repr

inductive HeaderValue : Type
  | missing
  | one (text : Utf16)
  | many (texts : List Utf16)
deriving DecidableEq, Repr

namespace HeaderValue

def map (f : Utf16 → Utf16) : HeaderValue → HeaderValue
  | missing => missing
  | one text => one (f text)
  | many texts => many (texts.map f)

/-- The texts of a header. -/
def texts : HeaderValue → List Utf16
  | missing => []
  | one text => [text]
  | many texts => texts

theorem map_id (value : HeaderValue) : value.map (fun text ↦ text) = value := by
  rcases value with _ | _ | texts
  · rfl
  · rfl
  · rw [map, List.map_id']

@[simp] theorem texts_map (f : Utf16 → Utf16) (value : HeaderValue) :
    (value.map f).texts = value.texts.map f := by
  rcases value with _ | _ | _ <;> rfl

end HeaderValue

abbrev Headers := OrderedMap Utf16 HeaderValue

/-- HTTPS on one of its ports, and no user information. -/
def Destination.secure (destination : Destination) : Bool :=
  destination.protocol = "https:" && ["", "443", "8443"].contains destination.port &&
    destination.username = "" && destination.password = ""

section

variable (destination : Destination) (credentials : List EnvironmentCredentialSubstitution)

def admitted : List EnvironmentCredentialSubstitution :=
  credentials.filter fun credential ↦
    credential.allowedHosts.contains destination.hostname.toLower

/-- The secret of each placeholder. -/
def secretOf : OrderedMap Utf16 Utf16 :=
  .ofList (((admitted destination credentials).filter fun credential ↦
    credential.placeholder.length ≠ 0).map fun credential ↦
      (credential.placeholder, credential.secret))

/-- The alternatives of the expression, the longest first, and what replaces each. -/
def alternatives : List RedactionPattern :=
  byLength ((secretOf destination credentials).entries.map fun entry ↦ ⟨entry.1, entry.2⟩)

def substituteEnvironmentHeaders (headers : Headers) : Headers :=
  if !destination.secure then headers
  else if (secretOf destination credentials).entries.isEmpty then headers
  else headers.mapValues fun _ value ↦
    value.map fun text ↦ (replaceFrom (alternatives destination credentials) 0 text).1

/-! ## Which secrets play a part -/

/-- The credential may be used for the destination. -/
def Admitted (credential : EnvironmentCredentialSubstitution) : Prop :=
  destination.secure = true ∧ destination.hostname.toLower ∈ credential.allowedHosts

instance (credential : EnvironmentCredentialSubstitution) :
    Decidable (Admitted destination credential) :=
  inferInstanceAs (Decidable (_ ∧ _))

/-- The placeholders that are replaced in a request to the destination. -/
def placeholders : List RedactionPattern :=
  if destination.secure then alternatives destination credentials else []

end

variable {destination : Destination} {credentials : List EnvironmentCredentialSubstitution}

theorem credential_of_mem {p : RedactionPattern} (h : p ∈ placeholders destination credentials) :
    p.value ≠ [] ∧ ∃ credential ∈ credentials, Admitted destination credential ∧
      p = ⟨credential.placeholder, credential.secret⟩ := by
  rw [placeholders] at h
  split at h
  · rename_i hsecure
    obtain ⟨entry, hentry, rfl⟩ := List.mem_map.mp (mem_byLength.mp h)
    obtain ⟨credential, hcredential, rfl⟩ := List.mem_map.mp (OrderedMap.mem_entries_ofList hentry)
    obtain ⟨hadmitted, hlength⟩ := List.mem_filter.mp hcredential
    obtain ⟨hmem, hhost⟩ := List.mem_filter.mp hadmitted
    refine ⟨?_, credential, hmem, ⟨hsecure, by simpa using hhost⟩, rfl⟩
    intro hnil
    exact of_decide_eq_true hlength (congrArg List.length hnil)
  · exact nomatch h

theorem scannable_placeholders : Scannable (placeholders destination credentials) := by
  refine ⟨?_, ?_, fun p hp ↦ (credential_of_mem hp).1⟩
  · rw [placeholders]
    split
    · exact byLength_sorted
    · exact .nil
  · rw [placeholders]
    split
    · rw [alternatives, byLength, ((List.perm_insertionSort _ _).map _).nodup_iff, List.map_map]
      exact (secretOf destination credentials).nodup
    · exact .nil

/-- Every placeholder of an admitted credential is replaced. -/
theorem exists_placeholder {credential : EnvironmentCredentialSubstitution}
    (hmem : credential ∈ credentials) (h : Admitted destination credential)
    (hne : credential.placeholder ≠ []) :
    ∃ p ∈ placeholders destination credentials, p.value = credential.placeholder := by
  have hlisted : credential ∈ (admitted destination credentials).filter fun credential ↦
      credential.placeholder.length ≠ 0 := by
    refine List.mem_filter.mpr ⟨List.mem_filter.mpr ⟨hmem, by simpa using h.2⟩, ?_⟩
    exact decide_eq_true fun hlength ↦ hne (List.eq_nil_of_length_eq_zero hlength)
  obtain ⟨secret, hsecret⟩ := OrderedMap.exists_get?_ofList
    (List.mem_map_of_mem (f := Prod.fst) (List.mem_map_of_mem
      (f := fun credential : EnvironmentCredentialSubstitution ↦
        (credential.placeholder, credential.secret)) hlisted))
  rw [placeholders, if_pos h.1]
  exact ⟨⟨credential.placeholder, secret⟩, mem_byLength.mpr (List.mem_map_of_mem
    (f := fun entry : Utf16 × Utf16 ↦ (⟨entry.1, entry.2⟩ : RedactionPattern))
    (OrderedMap.get?_eq_some.mp hsecret)), rfl⟩

/-- Without patterns a text is written as it is read. -/
theorem replaceFrom_nil (text : Utf16) : (replaceFrom [] 0 text).1 = text := by
  induction text with
  | nil => rfl
  | cons u text ih =>
    rw [replaceFrom]
    exact congrArg (u :: ·) ih

theorem substituteEnvironmentHeaders_eq (headers : Headers) :
    substituteEnvironmentHeaders destination credentials headers =
      headers.mapValues fun _ value ↦ value.map fun text ↦
        (replaceFrom (placeholders destination credentials) 0 text).1 := by
  have hsame : headers.mapValues (fun _ value ↦ value.map fun text ↦ text) = headers := by
    simp only [HeaderValue.map_id, OrderedMap.mapValues_id]
  rw [substituteEnvironmentHeaders, placeholders]
  by_cases hsecure : destination.secure = true
  · rw [if_pos hsecure]
    simp only [hsecure, Bool.not_true, Bool.false_eq_true, if_false]
    split
    · rename_i hempty
      rw [alternatives, List.isEmpty_iff.mp hempty]
      simp only [List.map_nil, byLength, List.insertionSort_nil, replaceFrom_nil, hsame]
    · rfl
  · rw [if_neg hsecure]
    simp only [hsecure, Bool.not_false, if_true, replaceFrom_nil, hsame]

/-- Two lists of credentials that differ in secrets which are not admitted. -/
def AgreeOn (destination : Destination)
    (credential credential' : EnvironmentCredentialSubstitution) : Prop :=
  credential'.placeholder = credential.placeholder ∧
    credential'.allowedHosts = credential.allowedHosts ∧
    (Admitted destination credential → credential'.secret = credential.secret)

/-- Secrets that are not admitted play no part. -/
theorem placeholders_eq_of_agreeOn {credentials' : List EnvironmentCredentialSubstitution}
    (h : List.Forall₂ (AgreeOn destination) credentials credentials') :
    placeholders destination credentials' = placeholders destination credentials := by
  rw [placeholders, placeholders]
  split
  · rename_i hsecure
    have hadmitted : admitted destination credentials' = admitted destination credentials := by
      induction h with
      | nil => rfl
      | @cons credential credential' rest rest' hagree _ ih =>
        obtain ⟨hplaceholder, hhosts, hsecret⟩ := hagree
        rw [admitted, admitted, List.filter_cons, List.filter_cons, hhosts]
        split
        · rename_i hhost
          have hsame : credential' = credential := by
            rcases credential' with ⟨_, _, _⟩
            rcases credential with ⟨_, _, _⟩
            obtain rfl : _ = _ := hplaceholder
            obtain rfl : _ = _ := hhosts
            obtain rfl : _ = _ := hsecret ⟨hsecure, by simpa using hhost⟩
            rfl
          rw [hsame]
          exact congrArg (credential :: ·) ih
        · exact ih
    rw [alternatives, alternatives, secretOf, secretOf, hadmitted]
  · rfl

/-- A secret that occurs in no header occurs in the result only if it is admitted. -/
def OnlyAdmitted (destination : Destination)
    (credentials : List EnvironmentCredentialSubstitution) (headers : Headers) : Prop :=
  ∀ credential ∈ credentials,
    (∀ header ∈ headers.entries, ∀ text ∈ header.2.texts, ¬ credential.secret <:+: text) →
    (∃ header ∈ (substituteEnvironmentHeaders destination credentials headers).entries,
      ∃ text ∈ header.2.texts, credential.secret <:+: text) → Admitted destination credential

/-- **What a request carries away.** One function rewrites every text of every header. It reads the
text once and replaces the longest placeholder at each place, by the secret of a credential that is
admitted for the destination. What occurs in the result and not in the text meets such a secret. -/
theorem substituteEnvironmentHeaders_spec (headers : Headers) (destination : Destination)
    (credentials : List EnvironmentCredentialSubstitution) :
    (∃ f : Utf16 → Utf16,
      substituteEnvironmentHeaders destination credentials headers =
        headers.mapValues (fun _ value ↦ value.map f) ∧
      ∀ text, (∃ count, Scans (placeholders destination credentials) text (f text) count []) ∧
        ∀ s before after, s ≠ [] → f text = before ++ s ++ after → ¬ s <:+: text →
          ∃ front, ∃ credential ∈ credentials, Admitted destination credential ∧
            Inserted (placeholders destination credentials) text front
              ⟨credential.placeholder, credential.secret⟩ ∧
            front.length < before.length + s.length ∧
            before.length < front.length + credential.secret.length) ∧
      (∀ p ∈ placeholders destination credentials, p.value ≠ [] ∧
        ∃ credential ∈ credentials, Admitted destination credential ∧
          p = ⟨credential.placeholder, credential.secret⟩) ∧
      (∀ credential ∈ credentials, Admitted destination credential →
        credential.placeholder ≠ [] →
        ∃ p ∈ placeholders destination credentials, p.value = credential.placeholder) ∧
      ∀ credentials', List.Forall₂ (AgreeOn destination) credentials credentials' →
        substituteEnvironmentHeaders destination credentials' headers =
          substituteEnvironmentHeaders destination credentials headers := by
  refine ⟨⟨fun text ↦ (replaceFrom (placeholders destination credentials) 0 text).1,
    substituteEnvironmentHeaders_eq headers, fun text ↦ ?_⟩, fun p ↦ credential_of_mem,
    fun credential ↦ exists_placeholder, ?_⟩
  · have hscan := scans_replaceFrom (@scannable_placeholders destination credentials) 0 text
    refine ⟨⟨_, hscan⟩, fun s before after hs hout hnew ↦ ?_⟩
    -- What was not in the text overlaps something that was inserted.
    obtain ⟨front, p, hinserted, hlt, hlt'⟩ :=
      (hscan.inserted_of_infix hs hout).resolve_right hnew
    obtain ⟨count, rest, -, hsome⟩ := hinserted.reached
    obtain ⟨-, credential, hmem, hadmitted, rfl⟩ := credential_of_mem (longest_mem hsome).1
    exact ⟨front, credential, hmem, hadmitted, hinserted, hlt, hlt'⟩
  · intro credentials' hagree
    rw [substituteEnvironmentHeaders_eq, substituteEnvironmentHeaders_eq,
      placeholders_eq_of_agreeOn hagree]

/-- The secret of another host, put together of an admitted secret and the letter before it. -/
theorem substituteEnvironmentHeaders_joins :
    ¬ OnlyAdmitted ⟨"https:", "", "", "", "a"⟩
      [⟨[80], [50], ["a"]⟩, ⟨[81], [49, 50], ["b"]⟩]
      (.ofList [([65], .one [49, 80])]) := by
  intro h
  have hnone : ¬ Admitted ⟨"https:", "", "", "", "a"⟩ ⟨[81], [49, 50], ["b"]⟩ := by decide +kernel
  exact hnone (h _ (by decide) (by decide +kernel) (by decide +kernel))

end RatThings.Environments
