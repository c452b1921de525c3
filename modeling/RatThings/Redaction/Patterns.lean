import RatThings.Library.Encodings
import RatThings.Library.Fallible
import RatThings.Library.OrderedMap
import RatThings.Library.Scanning

/-!
# The patterns of a secret

A secret is looked for in every spelling in which a program may echo it. `secretRedactionPatterns`
collects the spellings of all secrets in a dictionary, so that each stands in the list once, and
sorts them by length.
-/

namespace RatThings.Redaction

open Concurrent Replacement

/-- A secret in one of its spellings, and the placeholder for it. -/
abbrev RedactionPattern := Replacement UInt16

/-- `MIN_SECRET_SCAN_LENGTH` -/
def minSecretScanLength : ℕ := 8

structure SecretReplacement where
  secret : Utf16
  replacement : Utf16

open Utf16 in
/-- The spellings of a secret. Half a surrogate pair has none in a URL, and writing it there
fails. -/
def spellings (secret : Utf16) : Except String (List Utf16) := do
  let encoded ← encodeURIComponent secret
  return [secret, base64 (bytes secret), base64url (bytes secret),
    withoutPadding (base64 (bytes secret)), ((stringify secret).drop 1).dropLast, encoded,
    lowerEscapes encoded, (urlSearchParams (ascii ['v', 'a', 'l', 'u', 'e']) secret).drop 6]

/-- One round of the loop: a short secret has no patterns. -/
def addSecret (patterns : OrderedMap Utf16 Utf16) (s : SecretReplacement) :
    Except String (OrderedMap Utf16 Utf16) :=
  if s.secret.length < minSecretScanLength then .ok patterns
  else do
    let values ← spellings s.secret
    return values.foldl (fun patterns value ↦ patterns.set value s.replacement) patterns

def secretRedactionPatterns (secrets : List SecretReplacement) :
    Except String (List RedactionPattern) := do
  let patterns ← secrets.foldlM addSecret OrderedMap.empty
  return byLength (patterns.entries.map fun entry ↦ ⟨entry.1, entry.2⟩)

/-! ## What the list is like -/

/-- What scanning with a list of patterns relies on: longer patterns come first, no value is listed
twice and none is empty. -/
structure Scannable (patterns : List RedactionPattern) : Prop where
  sorted : patterns.Pairwise fun p q ↦ q.value.length ≤ p.value.length
  nodup : (patterns.map Replacement.value).Nodup
  nonempty : ∀ p ∈ patterns, p.value ≠ []

theorem spellings_ne_nil {secret value : Utf16} {values : List Utf16} (h : secret ≠ [])
    (hok : spellings secret = .ok values) (hvalue : value ∈ values) : value ≠ [] := by
  rw [spellings] at hok
  obtain ⟨encoded, hencoded, hvalues⟩ := bind_eq_ok.mp hok
  obtain rfl := Except.ok.inj hvalues
  have hbytes := Utf16.bytes_ne_nil h
  simp only [List.mem_cons, List.not_mem_nil, or_false] at hvalue
  rcases hvalue with rfl | rfl | rfl | rfl | rfl | rfl | rfl | rfl
  · exact h
  · exact Utf16.base64_ne_nil hbytes
  · exact Utf16.base64url_ne_nil hbytes
  · exact Utf16.withoutPadding_ne_nil hbytes
  · rw [Utf16.stringify_inside]
    exact Utf16.jsonUnits_ne_nil h
  · exact Utf16.encodeURIComponent_ne_nil h hencoded
  · exact Utf16.lowerEscapes_ne_nil (Utf16.encodeURIComponent_ne_nil h hencoded)
  · exact Utf16.flatMap_ne_nil Utf16.formByte_ne_nil hbytes

/-- Recording the spellings of a secret adds them and nothing else. -/
theorem mem_keys_foldl_set {patterns : OrderedMap Utf16 Utf16} {values : List Utf16}
    {replacement key : Utf16}
    (h : key ∈ (values.foldl (fun patterns value ↦ patterns.set value replacement)
      patterns).entries.map Prod.fst) :
    key ∈ values ∨ key ∈ patterns.entries.map Prod.fst := by
  induction values generalizing patterns with
  | nil => exact .inr h
  | cons value values ih =>
    rcases ih h with hmem | hmem
    · exact .inl (List.mem_cons_of_mem value hmem)
    · rcases OrderedMap.mem_keys_set hmem with rfl | hmem
      · exact .inl List.mem_cons_self
      · exact .inr hmem

theorem addSecret_nonempty {patterns patterns' : OrderedMap Utf16 Utf16} {s : SecretReplacement}
    (hok : addSecret patterns s = .ok patterns')
    (h : ∀ key ∈ patterns.entries.map Prod.fst, key ≠ []) :
    ∀ key ∈ patterns'.entries.map Prod.fst, key ≠ [] := by
  rw [addSecret] at hok
  split at hok
  · obtain rfl := Except.ok.inj hok
    exact h
  · rename_i hlong
    obtain ⟨values, hvalues, hok⟩ := bind_eq_ok.mp hok
    obtain rfl := Except.ok.inj hok
    have hsecret : s.secret ≠ [] := by
      rintro hnil
      rw [hnil] at hlong
      exact hlong (by decide)
    intro key hkey
    rcases mem_keys_foldl_set hkey with hkey | hkey
    · exact spellings_ne_nil hsecret hvalues hkey
    · exact h key hkey

theorem secretRedactionPatterns_scannable {secrets : List SecretReplacement}
    {patterns : List RedactionPattern} (hok : secretRedactionPatterns secrets = .ok patterns) :
    Scannable patterns := by
  obtain ⟨collected, hcollected, hok⟩ := bind_eq_ok.mp hok
  obtain rfl := Except.ok.inj hok
  have hkeys : ∀ key ∈ collected.entries.map Prod.fst, key ≠ [] :=
    foldlM_invariant (fun patterns : OrderedMap Utf16 Utf16 ↦
        ∀ key ∈ patterns.entries.map Prod.fst, key ≠ [])
      (fun _ _ _ _ hok ↦ addSecret_nonempty hok) hcollected (by simp)
  refine ⟨byLength_sorted, ?_, fun p hp ↦ ?_⟩
  · rw [byLength, ((List.perm_insertionSort _ _).map _).nodup_iff, List.map_map]
    exact collected.nodup
  · obtain ⟨entry, hentry, rfl⟩ := List.mem_map.mp (mem_byLength.mp hp)
    exact hkeys entry.1 (List.mem_map_of_mem hentry)

end RatThings.Redaction
