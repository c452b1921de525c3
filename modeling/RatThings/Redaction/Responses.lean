import RatThings.Redaction.Patterns

/-!
# Responses that echo a credential

`CredentialResponseScrubber` reads a response in chunks and replaces every pattern in it. Of each
input it decides only the positions before `limit`, because a pattern that stands there ends within
the input, and it keeps the rest for the next chunk. What has been pushed is therefore a reading of
the beginning of the response whatever follows, and the pushes of all chunks make up the reading of
the whole response.

`Scan` has the variables of the loop, and `Within` that they are in order. `written` is what a round
has pushed together with what it has read and not yet pushed; one round extends the reading by one
position. Between chunks, `Reads` says that what was pushed is a reading of what was seen but for
the part that is kept, and that a pattern is longer than this part by one byte at most.
-/

namespace RatThings.Redaction

open Concurrent Replacement

/-! ## The scrubber -/

abbrev Buffer := List UInt8

/-- The pattern in bytes. -/
def buffered (p : RedactionPattern) : Replacement UInt8 :=
  ⟨Utf16.bytes p.value, Utf16.bytes p.replacement⟩

/-- The scrubber, what it has pushed and the counts it has passed to `scrubbed`. -/
structure CredentialResponseScrubber where
  patterns : List (Replacement UInt8)
  retain : ℕ
  pending : Buffer := []
  pushed : List Buffer := []
  counts : List ℕ := []

def credentialResponseScrubber (patterns : List RedactionPattern) : CredentialResponseScrubber :=
  let patterns := byLength (patterns.map buffered)
  { patterns, retain := (patterns.map fun p ↦ p.value.length).foldr max 1 - 1 }

def subarray (input : Buffer) (start stop : ℕ) : Buffer := (input.take stop).drop start

/-- The variables of the loop in `scan`, with what it has pushed. -/
structure Scan where
  offset : ℕ := 0
  copied : ℕ := 0
  count : ℕ := 0
  pushed : List Buffer := []

namespace Scan

variable (patterns : List (Replacement UInt8)) (input : Buffer) (limit : ℕ)

/-- `if (offset > copied) this.push(input.subarray(copied, offset))` -/
def copy (s : Scan) : List Buffer :=
  if s.copied < s.offset then [subarray input s.copied s.offset] else []

/-- One round of the loop. -/
def next (s : Scan) : Scan :=
  match patterns.find? fun p ↦ subarray input s.offset (s.offset + p.value.length) = p.value with
  | none => { s with offset := s.offset + 1 }
  | some p =>
    { offset := s.offset + p.value.length
      copied := s.offset + p.value.length
      count := s.count + 1
      pushed := s.pushed ++ s.copy input ++ [p.replacement] }

/-- The loop, with a bound on its rounds. -/
def loop (rounds : ℕ) (s : Scan) : Option Scan :=
  if s.offset < limit then
    match rounds with
    | 0 => none
    | rounds + 1 => loop rounds (s.next patterns input)
  else some s

end Scan

namespace CredentialResponseScrubber

def scan (t : CredentialResponseScrubber) (input : Buffer) (final : Bool) :
    Option CredentialResponseScrubber :=
  let limit := if final then input.length else input.length - t.retain
  (Scan.loop t.patterns input limit limit {}).map fun s ↦
    { t with
      pending := input.drop s.offset
      pushed := t.pushed ++ s.pushed ++ s.copy input
      counts := if s.count = 0 then t.counts else t.counts ++ [s.count] }

def transform (t : CredentialResponseScrubber) (chunk : Buffer) :
    Option CredentialResponseScrubber :=
  t.scan (t.pending ++ chunk) false

def flush (t : CredentialResponseScrubber) : Option CredentialResponseScrubber :=
  t.scan t.pending true

end CredentialResponseScrubber

/-- A response in chunks, piped through a scrubber. -/
def scrub (patterns : List RedactionPattern) (chunks : List Buffer) :
    Option CredentialResponseScrubber := do
  let t ← chunks.foldlM CredentialResponseScrubber.transform (credentialResponseScrubber patterns)
  t.flush

/-! ## One scan

The rounds of one input. A bound on them is given by its length, and is not reached. -/

theorem subarray_eq_iff {input value : Buffer} {offset : ℕ} :
    subarray input offset (offset + value.length) = value ↔ value <+: input.drop offset := by
  rw [subarray, List.drop_take, Nat.add_sub_cancel_left, List.prefix_iff_eq_take, eq_comm]

theorem subarray_append {input : Buffer} {start middle stop : ℕ} (h : start ≤ middle)
    (h' : middle ≤ stop) :
    subarray input start middle ++ subarray input middle stop = subarray input start stop := by
  simp only [subarray, List.drop_take]
  obtain ⟨k, rfl⟩ := Nat.exists_eq_add_of_le h
  obtain ⟨l, rfl⟩ := Nat.exists_eq_add_of_le h'
  rw [Nat.add_sub_cancel_left, Nat.add_sub_cancel_left, Nat.add_assoc, Nat.add_sub_cancel_left,
    ← List.drop_drop, ← List.take_add]

namespace Scan

variable {patterns : List (Replacement UInt8)} {input future : Buffer} {limit : ℕ} {s : Scan}

/-- What a scan has written, the bytes it has read but not yet pushed included. -/
def written (input : Buffer) (s : Scan) : Buffer :=
  s.pushed.flatten ++ subarray input s.copied s.offset

theorem flatten_copy : (s.copy input).flatten = subarray input s.copied s.offset := by
  rw [copy]
  split
  · simp
  · rename_i hle
    have hnil : subarray input s.copied s.offset = [] := by
      rw [subarray, List.drop_eq_nil_iff, List.length_take]
      omega
    simp [hnil]

/-- The loop's pattern is the longest one at its position. -/
theorem find?_subarray (offset : ℕ) :
    ((byLength patterns).find? fun p ↦
      subarray input offset (offset + p.value.length) = p.value) =
      longest patterns (input.drop offset) := by
  rw [← find?_byLength]
  congr 1
  funext p
  exact decide_eq_decide.mpr subarray_eq_iff

/-- The positions of a scan are in order and within its input. -/
structure Within (input : Buffer) (s : Scan) : Prop where
  copied : s.copied ≤ s.offset
  offset : s.offset ≤ input.length

/-- One round reads on from its position, whatever follows the input, provided that the choice of
the pattern does not depend on it. -/
theorem next_scans (hvalues : ∀ p ∈ patterns, p.value ≠ []) (hwithin : s.Within input)
    (hlt : s.offset < input.length)
    (hsame : longest patterns (input.drop s.offset ++ future) =
      longest patterns (input.drop s.offset)) :
    (s.next (byLength patterns) input).Within input ∧
      s.offset < (s.next (byLength patterns) input).offset ∧
      ∃ out n, (s.next (byLength patterns) input).written input = s.written input ++ out ∧
        (s.next (byLength patterns) input).count = s.count + n ∧
        Scans patterns (input.drop s.offset ++ future) out n
          (input.drop (s.next (byLength patterns) input).offset ++ future) := by
  have hcopied := hwithin.copied
  rw [next, find?_subarray]
  -- Either one byte is kept or a pattern is replaced, and the offset grows.
  cases hfound : longest patterns (input.drop s.offset) with
  | none =>
    refine ⟨⟨Nat.le_succ_of_le hcopied, hlt⟩, Nat.lt_succ_self _,
      [input[s.offset]], 0, ?_, rfl, ?_⟩
    · have hone : subarray input s.offset (s.offset + 1) = [input[s.offset]] := by
        rw [subarray, List.drop_take, Nat.add_sub_cancel_left, List.drop_eq_getElem_cons hlt]
        rfl
      rw [written, written, List.append_assoc, ← hone,
        subarray_append hcopied (Nat.le_succ s.offset)]
    · rw [hfound, List.drop_eq_getElem_cons hlt] at hsame
      rw [List.drop_eq_getElem_cons hlt]
      exact .keep hsame (.stop _)
  | some p =>
    obtain ⟨hmem, hheads⟩ := longest_mem hfound
    obtain ⟨rest, hrest⟩ := hheads
    have hdrop : input.drop (s.offset + p.value.length) = rest := by
      rw [← List.drop_drop, ← hrest, List.drop_left]
    have hlength := congrArg List.length hrest
    rw [List.length_append, List.length_drop] at hlength
    refine ⟨⟨le_rfl, ?_⟩, ?_, p.replacement, 1, ?_, rfl, ?_⟩
    · change s.offset + p.value.length ≤ input.length
      omega
    · have hpos := List.length_pos_of_ne_nil (hvalues p hmem)
      change s.offset < s.offset + p.value.length
      omega
    · have hnil : subarray input (s.offset + p.value.length) (s.offset + p.value.length) = [] := by
        rw [subarray, List.drop_eq_nil_iff, List.length_take]
        exact Nat.min_le_left _ _
      simp only [written, hnil, List.flatten_append, flatten_copy, List.flatten_singleton,
        List.append_nil]
    · change Scans patterns _ _ 1 (input.drop (s.offset + p.value.length) ++ future)
      rw [hfound, ← hrest, List.append_assoc] at hsame
      rw [hdrop, ← hrest, List.append_assoc, ← List.append_nil p.replacement]
      exact .replace hsame (.stop _)

/-- The loop ends, and what it has written is a reading of the input up to where it stands,
whatever follows the input. -/
theorem loop_scans (hvalues : ∀ p ∈ patterns, p.value ≠ []) (hlimit : limit ≤ input.length)
    (rounds : ℕ) (hrounds : limit ≤ s.offset + rounds) (hwithin : s.Within input) :
    ∃ s', loop (byLength patterns) input limit rounds s = some s' ∧
      limit ≤ s'.offset ∧
      ∀ future, (∀ k < limit, longest patterns (input.drop k ++ future) =
          longest patterns (input.drop k)) →
        ∃ out n, s'.written input = s.written input ++ out ∧ s'.count = s.count + n ∧
          Scans patterns (input.drop s.offset ++ future) out n
            (input.drop s'.offset ++ future) := by
  induction rounds generalizing s with
  | zero =>
    rw [loop, if_neg (by omega)]
    exact ⟨s, rfl, by omega, fun future _ ↦ ⟨[], 0, by simp, rfl, .stop _⟩⟩
  | succ rounds ih =>
    rw [loop]
    by_cases hlt : s.offset < limit
    · rw [if_pos hlt]
      have hinput : s.offset < input.length := lt_of_lt_of_le hlt hlimit
      have hnil : longest patterns (input.drop s.offset ++ []) =
          longest patterns (input.drop s.offset) := by rw [List.append_nil]
      obtain ⟨hnext, hgrows, -⟩ := next_scans hvalues hwithin hinput hnil
      obtain ⟨s', hloop, hend, hreads⟩ := ih (by omega) hnext
      refine ⟨s', hloop, hend, fun future hsame ↦ ?_⟩
      obtain ⟨-, -, out, n, hout, hn, hscan⟩ :=
        next_scans hvalues hwithin hinput (hsame s.offset hlt)
      obtain ⟨out', n', hout', hn', hscan'⟩ := hreads future hsame
      refine ⟨out ++ out', n + n', ?_, ?_, hscan.append hscan'⟩
      · rw [hout', hout, List.append_assoc]
      · rw [hn', hn, Nat.add_assoc]
    · rw [if_neg hlt]
      exact ⟨s, rfl, by omega, fun future _ ↦ ⟨[], 0, by simp, rfl, .stop _⟩⟩

end Scan

/-! ## All chunks

The readings of the chunks are put together by the rule of the library for a text in two parts. -/

namespace CredentialResponseScrubber

variable {patterns : List (Replacement UInt8)} {t : CredentialResponseScrubber}

/-- One call of `scan`: what it adds is a reading of its input up to what it keeps. -/
theorem scan_reads (hvalues : ∀ p ∈ patterns, p.value ≠ [])
    (hpatterns : t.patterns = byLength patterns)
    (input : Buffer) (final : Bool) :
    ∃ t', t.scan input final = some t' ∧ t'.patterns = t.patterns ∧ t'.retain = t.retain ∧
      (final = true → t'.pending = []) ∧
      ∀ future, (∀ k < (if final then input.length else input.length - t.retain),
          longest patterns (input.drop k ++ future) = longest patterns (input.drop k)) →
        ∃ out n, t'.pushed.flatten = t.pushed.flatten ++ out ∧
          t'.counts.sum = t.counts.sum + n ∧
          Scans patterns (input ++ future) out n (t'.pending ++ future) := by
  have hlimit : (if final then input.length else input.length - t.retain) ≤ input.length := by
    split <;> omega
  obtain ⟨s, hloop, hend, hreads⟩ := Scan.loop_scans hvalues hlimit
    (if final then input.length else input.length - t.retain) (Nat.le_add_left _ _)
    (show ({} : Scan).Within input from ⟨le_rfl, Nat.zero_le _⟩)
  rw [← hpatterns] at hloop
  simp only [scan, hloop, Option.map_some]
  refine ⟨_, rfl, rfl, rfl, ?_, fun future hsame ↦ ?_⟩
  · rintro rfl
    exact List.drop_eq_nil_of_le hend
  · obtain ⟨out, n, hout, hn, hscan⟩ := hreads future hsame
    refine ⟨out, n, ?_, ?_, hscan⟩
    · have hwritten : s.pushed.flatten ++ subarray input s.copied s.offset = out := by
        simpa [Scan.written, subarray] using hout
      rw [List.flatten_append, List.flatten_append, Scan.flatten_copy, List.append_assoc, hwritten]
    · obtain rfl : s.count = n := by simpa using hn
      by_cases hzero : s.count = 0 <;> simp [hzero]

/-- The scrubber has read `seen`, except for what it keeps, and its patterns fit into what it
keeps but for one byte. -/
structure Reads (t : CredentialResponseScrubber) (patterns : List (Replacement UInt8))
    (seen : Buffer) : Prop where
  sorted : t.patterns = byLength patterns
  retain : ∀ p ∈ patterns, p.value.length ≤ t.retain + 1
  scans : ∀ future, Scans patterns (seen ++ future) t.pushed.flatten t.counts.sum
    (t.pending ++ future)

/-- Before `limit` every pattern fits into the input, so that no later chunk changes the choice. -/
theorem Reads.transform {seen : Buffer} (hvalues : ∀ p ∈ patterns, p.value ≠ [])
    (h : t.Reads patterns seen) (chunk : Buffer) :
    ∃ t', t.transform chunk = some t' ∧ t'.Reads patterns (seen ++ chunk) := by
  obtain ⟨t', ht', hsame, hretain, -, hreads⟩ :=
    scan_reads hvalues h.sorted (t.pending ++ chunk) false
  refine ⟨t', ht', hsame.trans h.sorted, hretain ▸ h.retain, fun future ↦ ?_⟩
  obtain ⟨out, n, hout, hn, hscan⟩ := hreads future fun k hk ↦ longest_append fun p hp ↦ by
    have hfits := h.retain p hp
    rw [if_neg Bool.false_ne_true] at hk
    rw [List.length_drop]
    omega
  rw [hout, hn, List.append_assoc]
  rw [List.append_assoc] at hscan
  exact (h.scans (chunk ++ future)).append hscan

theorem Reads.foldlM {seen : Buffer} (hvalues : ∀ p ∈ patterns, p.value ≠ [])
    (h : t.Reads patterns seen) (chunks : List Buffer) :
    ∃ t', chunks.foldlM CredentialResponseScrubber.transform t = some t' ∧
      t'.Reads patterns (seen ++ chunks.flatten) := by
  induction chunks generalizing t seen with
  | nil => exact ⟨t, rfl, by simpa using h⟩
  | cons chunk chunks ih =>
    obtain ⟨t', ht', h'⟩ := h.transform hvalues chunk
    obtain ⟨t'', ht'', h''⟩ := ih h'
    refine ⟨t'', ?_, by simpa using h''⟩
    rw [List.foldlM_cons, ht']
    exact ht''

/-- The last scan decides every position. -/
theorem Reads.flush {seen : Buffer} (hvalues : ∀ p ∈ patterns, p.value ≠ [])
    (h : t.Reads patterns seen) :
    ∃ t', t.flush = some t' ∧ Scans patterns seen t'.pushed.flatten t'.counts.sum [] := by
  obtain ⟨t', ht', -, -, hpending, hreads⟩ := scan_reads hvalues h.sorted t.pending true
  refine ⟨t', ht', ?_⟩
  obtain ⟨out, n, hout, hn, hscan⟩ := hreads [] (by simp)
  have hfirst := (h.scans []).append hscan
  rw [hpending rfl] at hfirst
  rw [hout, hn]
  simpa using hfirst

end CredentialResponseScrubber

/-- A new scrubber has read nothing, and keeps one byte less than its longest pattern. -/
theorem reads_credentialResponseScrubber (patterns : List RedactionPattern) :
    (credentialResponseScrubber patterns).Reads (patterns.map buffered) [] := by
  refine ⟨rfl, fun p hp ↦ ?_, fun future ↦ .stop future⟩
  have hmem : p.value.length ∈ (byLength (patterns.map buffered)).map fun p ↦ p.value.length :=
    List.mem_map_of_mem (mem_byLength.mpr hp)
  have hmax := List.le_max_of_le' 1 hmem le_rfl
  exact Nat.sub_le_iff_le_add.mp (Nat.sub_le_sub_right hmax 1)

/-- **Streaming scrubs as reading the whole response does.** However a response is cut into chunks,
the scrubber ends, and there is one way to read the whole response from left to right, replacing the
longest pattern wherever one stands: it writes what the scrubber has pushed, and makes as many
replacements as the scrubber has counted. -/
theorem scrub_eq_scan (patterns : List RedactionPattern) (hvalues : ∀ p ∈ patterns, p.value ≠ [])
    (chunks : List Buffer) :
    ∃ scrubber, scrub patterns chunks = some scrubber ∧
      ∀ out count, Scans (patterns.map buffered) chunks.flatten out count [] ↔
        out = scrubber.pushed.flatten ∧ count = scrubber.counts.sum := by
  have hbytes : ∀ p ∈ patterns.map buffered, p.value ≠ [] := by
    intro p hp
    obtain ⟨q, hq, rfl⟩ := List.mem_map.mp hp
    exact Utf16.bytes_ne_nil (hvalues q hq)
  -- What the scrubber has read of the chunks is an unfinished scan, which the flush finishes.
  obtain ⟨t, ht, hreads⟩ := (reads_credentialResponseScrubber patterns).foldlM hbytes chunks
  obtain ⟨t', ht', hscan⟩ := hreads.flush hbytes
  refine ⟨t', by rw [scrub, ht]; exact ht', fun out count ↦ ⟨fun h ↦ h.unique hbytes hscan, ?_⟩⟩
  rintro ⟨rfl, rfl⟩
  exact hscan

/-- Two patterns, one of which begins with the other. -/
def samplePatterns : List RedactionPattern := [⟨[97, 98], [42]⟩, ⟨[97, 98, 99], [43]⟩]

/-- The longer one arrives byte by byte. -/
theorem scrub_eq_scan_sample : ∃ scrubber,
    scrub samplePatterns [[97], [], [98], [99, 97], [98]] = some scrubber ∧
      ∀ out count, Scans (samplePatterns.map buffered) [97, 98, 99, 97, 98] out count [] ↔
        out = scrubber.pushed.flatten ∧ count = scrubber.counts.sum :=
  scrub_eq_scan samplePatterns (by decide) [[97], [], [98], [99, 97], [98]]

example : (scrub samplePatterns [[97], [], [98], [99, 97], [98]]).map
    (fun t ↦ (t.pushed.flatten, t.counts)) = some ([43, 42], [1, 1]) := by decide +kernel

end RatThings.Redaction
