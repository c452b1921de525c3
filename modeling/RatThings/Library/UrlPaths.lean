import RatThings.Library.Decodings
import RatThings.Library.Separator

/-!
# References between the files of a directory

A reference that is a relative path, as a browser resolves it: its segments are decoded, `.` and
`..` move through the directory, and a reference that leaves the directory refers to none of its
files.
-/

namespace Concurrent

namespace Utf16

/-- The value of a hexadecimal digit. -/
def hexDigit (b : UInt8) : Option ℕ :=
  let n := b.toNat
  if 0x30 ≤ n ∧ n ≤ 0x39 then some (n - 0x30)
  else if 0x41 ≤ n ∧ n ≤ 0x46 then some (n - 0x37)
  else if 0x61 ≤ n ∧ n ≤ 0x66 then some (n - 0x57)
  else none

/-- `%` and two digits are one byte. -/
def percentDecode : List UInt8 → List UInt8
  | a :: b :: c :: bytes =>
    match hexDigit b, hexDigit c with
    | some high, some low =>
      if a = 0x25 then (high * 16 + low).toUInt8 :: percentDecode bytes
      else a :: percentDecode (b :: c :: bytes)
    | _, _ => a :: percentDecode (b :: c :: bytes)
  | short => short

/-- The text of a segment. -/
def decodeSegment (segment : Utf16) : Utf16 :=
  ofBytes (percentDecode (bytes segment))

/-- The path that segments lead to from a directory, unless they leave it. -/
def navigate : List Utf16 → List Utf16 → Option (List Utf16)
  | directory, [] => some directory
  | directory, segment :: segments =>
    -- A path that ends in a dot segment is one of a directory.
    let last := if segments = [] then [[]] else []
    if segment = [0x2E] then navigate (directory ++ last) segments
    else if segment = [0x2E, 0x2E] then
      if directory = [] then none else navigate (directory.dropLast ++ last) segments
    else navigate (directory ++ [segment]) segments

/-- A unit of a path: no other one is used by `encodeURIComponent`, apart from the slash. -/
def isPathUnit (u : UInt16) : Bool :=
  isAlphanumeric u.toNat ||
    ['-', '_', '.', '!', '~', '*', '\'', '(', ')', '%', '/'].any (·.toNat = u.toNat)

/-- The file that segments refer to from a page of the directory. An empty path is the page. -/
def resolveSegments (page : Utf16) (segments : List Utf16) : Option Utf16 :=
  if segments = [[]] then some page
  else if segments.head? = some [] then none
  else (navigate [] segments).map (List.intercalate [0x2F])

def resolvePath (page path : Utf16) : Option Utf16 :=
  resolveSegments page (path.splitOn 0x2F)

/-- The file that a reference refers to: none if it is more than a path. -/
def resolveReference (page reference : Utf16) : Option Utf16 :=
  if reference.all isPathUnit then
    resolveSegments page ((reference.splitOn 0x2F).map decodeSegment)
  else none

/-! ## Encoded paths -/

/-- The bytes of a path, with escapes for all but a few, and for all but slashes. -/
def encodedPath (path : Utf16) : Utf16 :=
  (bytes path).flatMap (escapedByte ['-', '_', '.', '!', '~', '*', '\'', '(', ')', '/'])

/-- What `encodeURIComponent` makes of a part. -/
def encodedPart (part : Utf16) : Utf16 :=
  (bytes part).flatMap (escapedByte ['-', '_', '.', '!', '~', '*', '\'', '(', ')'])

theorem encodeURIComponent_eq_ok {part encoded : Utf16} :
    encodeURIComponent part = .ok encoded ↔ none ∉ characters part ∧
      encoded = encodedPart part := by
  rw [encodeURIComponent]
  split_ifs with h
  · exact iff_of_false (fun h ↦ by contradiction) fun hnot ↦ hnot.1 h
  · rw [Except.ok.injEq, encodedPart]
    exact ⟨fun heq ↦ ⟨h, heq.symm⟩, fun heq ↦ heq.2.symm⟩

theorem bytes_ascii_cons {u : UInt16} (h : u.toNat < 0x80) (text : Utf16) :
    bytes (u :: text) = u.toNat.toUInt8 :: bytes text := by
  rw [bytes_single (isLead_isTrail_of_lt (by omega)), characterBytes, if_pos h]
  rfl

theorem percentDecode_of_ne {b : UInt8} (h : b ≠ 0x25) (rest : List UInt8) :
    percentDecode (b :: rest) = b :: percentDecode rest := by
  rcases rest with _ | ⟨c, _ | ⟨d, rest⟩⟩
  · rfl
  · rfl
  · rw [percentDecode]
    split
    · rw [if_neg h]
    · rfl

theorem percentDecode_percent (b : UInt8) (text : Utf16) :
    percentDecode (bytes (percent b ++ text)) = b :: percentDecode (bytes text) := by
  have hdigit : ∀ n < 16, (digit 'A' n).toNat < 0x80 ∧
      hexDigit (digit 'A' n).toNat.toUInt8 = some n := by decide
  have hhigh := hdigit (b.toNat / 0x10) (by have := b.toNat_lt; omega)
  have hlow := hdigit (b.toNat % 0x10) (by omega)
  have hpercent : percent b ++ text =
      0x25 :: digit 'A' (b.toNat / 0x10) :: digit 'A' (b.toNat % 0x10) :: text := rfl
  rw [hpercent, bytes_ascii_cons (by decide), bytes_ascii_cons hhigh.1, bytes_ascii_cons hlow.1,
    percentDecode, hhigh.2, hlow.2]
  dsimp only
  rw [if_pos (by decide : (UInt16.toNat 37).toUInt8 = 37),
    toUInt8_toNat (show b.toNat / 16 * 16 + b.toNat % 16 = b.toNat by omega)]

/-- A byte that is written, and read. -/
theorem percentDecode_escapedByte {marks : List Char}
    (hmarks : marks.all (fun mark ↦ mark.toNat < 0x80 && mark.toNat ≠ 0x25) = true) (b : UInt8)
    (text : Utf16) :
    percentDecode (bytes (escapedByte marks b ++ text)) = b :: percentDecode (bytes text) := by
  rw [escapedByte]
  split_ifs with hplain
  · have hascii : b.toNat < 0x80 ∧ b.toNat ≠ 0x25 := by
      rw [Bool.or_eq_true] at hplain
      rcases hplain with halphanumeric | hmark
      · rw [isAlphanumeric] at halphanumeric
        simp at halphanumeric
        omega
      · obtain ⟨mark, hmem, hmark⟩ := List.any_eq_true.1 hmark
        have hmark' := List.all_eq_true.1 hmarks mark hmem
        rw [of_decide_eq_true hmark] at hmark'
        simpa using hmark'
    have hunit : b.toNat.toUInt16.toNat = b.toNat := by
      change b.toNat % 2 ^ 16 = b.toNat
      exact Nat.mod_eq_of_lt (by omega)
    rw [List.singleton_append, bytes_ascii_cons (by rw [hunit]; exact hascii.1), hunit,
      toUInt8_toNat rfl, percentDecode_of_ne]
    rintro rfl
    exact hascii.2 rfl
  · exact percentDecode_percent b text

theorem percentDecode_escaped {marks : List Char}
    (hmarks : marks.all (fun mark ↦ mark.toNat < 0x80 && mark.toNat ≠ 0x25) = true)
    (data : List UInt8) : percentDecode (bytes (data.flatMap (escapedByte marks))) = data := by
  induction data with
  | nil => rfl
  | cons b data ih => rw [List.flatMap_cons, percentDecode_escapedByte hmarks, ih]

/-- A part is read from its escapes. -/
theorem decodeSegment_encodedPart {part : Utf16} (h : Paired part) :
    decodeSegment (encodedPart part) = part := by
  rw [decodeSegment, encodedPart, percentDecode_escaped (by decide), ofBytes_bytes h]

/-- A unit of an escaped text. -/
theorem mem_escaped {marks : List Char} {data : List UInt8} {u : UInt16}
    (h : u ∈ data.flatMap (escapedByte marks)) :
    isAlphanumeric u.toNat = true ∨
      (∃ mark ∈ marks, mark.toNat = u.toNat ∧ u.toNat.toUInt8 ∈ data) ∨
      u = 0x25 := by
  obtain ⟨b, hb, hu⟩ := List.mem_flatMap.1 h
  rw [escapedByte] at hu
  split_ifs at hu with hplain
  · have hunit : b.toNat.toUInt16.toNat = b.toNat := by
      change b.toNat % 2 ^ 16 = b.toNat
      exact Nat.mod_eq_of_lt (by have := b.toNat_lt; omega)
    rw [List.mem_singleton.1 hu, hunit]
    rw [Bool.or_eq_true] at hplain
    rcases hplain with halphanumeric | hmark
    · exact .inl halphanumeric
    · obtain ⟨mark, hmem, hmark⟩ := List.any_eq_true.1 hmark
      exact .inr (.inl ⟨mark, hmem, of_decide_eq_true hmark, by rw [toUInt8_toNat rfl]; exact hb⟩)
  · have hdigit : ∀ n < 16, isAlphanumeric (digit 'A' n).toNat = true := by decide
    have hlt := b.toNat_lt
    rcases List.mem_append.1 hu with hu | hu
    · exact .inr (.inr (List.mem_singleton.1 hu))
    · rcases List.mem_pair.1 hu with rfl | rfl
      · exact .inl (hdigit _ (by omega))
      · exact .inl (hdigit _ (by omega))

/-- A byte of the ASCII range is a unit of the text. -/
theorem mem_of_mem_bytes {s : Utf16} {b : UInt8} (hb : b.toNat < 0x80) (h : b ∈ bytes s) :
    b.toNat.toUInt16 ∈ s := by
  have hcharacter : ∀ c, c < 0x110000 → b ∈ characterBytes c → c = b.toNat := by
    intro c hc hmem
    rw [characterBytes] at hmem
    have hsmall : ∀ n, n < 0x100 → b = n.toUInt8 → b.toNat = n := by
      rintro n hn rfl
      exact toNat_toUInt8 hn
    split_ifs at hmem with h1 h2 h3
    · exact (hsmall c (by omega) (List.mem_singleton.1 hmem)).symm
    · rcases List.mem_pair.1 hmem with hmem | hmem
      · have := hsmall _ (by omega) hmem
        omega
      · have := hsmall _ (by omega) hmem
        omega
    · simp only [List.mem_cons, List.not_mem_nil, or_false] at hmem
      rcases hmem with hmem | hmem | hmem
      all_goals
        have := hsmall _ (by omega) hmem
        omega
    · simp only [List.mem_cons, List.not_mem_nil, or_false] at hmem
      rcases hmem with hmem | hmem | hmem | hmem
      all_goals
        have := hsmall _ (by omega) hmem
        omega
  obtain ⟨c, hc, hmem⟩ := List.mem_flatMap.1 h
  have hsome : some b.toNat ∈ characters s := by
    rcases c with _ | c
    · have hreplacement := hcharacter 0xFFFD (by omega) hmem
      omega
    · have hvalid := valid_of_mem_characters hc
      rwa [← hcharacter c (by omega) hmem]
  have hsingle : ∀ u, some b.toNat = single u → b.toNat.toUInt16 = u := by
    intro u hu
    rw [single] at hu
    split_ifs at hu
    rw [Option.some.inj hu]
    exact UInt16.ofNat_toNat
  clear h hc hmem
  fun_induction characters s with
  | case1 => exact absurd hsome List.not_mem_nil
  | case2 u => exact List.mem_singleton.2 (hsingle u (List.mem_singleton.1 hsome))
  | case3 u v rest hpair ih =>
    rcases List.mem_cons.1 hsome with hfirst | hrest
    · have hvalue : paired u v = 0x10000 + (u.toNat - 0xD800) * 0x400 + (v.toNat - 0xDC00) := rfl
      have hbyte := Option.some.inj hfirst
      omega
    · exact List.mem_cons_of_mem _ (List.mem_cons_of_mem _ (ih hrest))
  | case4 u v rest hpair ih =>
    rcases List.mem_cons.1 hsome with hfirst | hrest
    · exact List.mem_cons.2 (.inl (hsingle u hfirst))
    · exact List.mem_cons_of_mem _ (ih hrest)

theorem characters_of_paired {s : Utf16} (h : Paired s) : none ∉ characters s := by
  induction h with
  | nil => exact List.not_mem_nil
  | @single u rest hu _ ih =>
    have happend := characters_append_cons hu [] rest
    rw [List.nil_append, characters, List.nil_append] at happend
    rw [happend, List.mem_cons, not_or]
    exact ⟨(fun h ↦ by contradiction), ih⟩
  | @pair u v rest hu hv _ ih =>
    rw [characters, if_pos (by rw [hu, hv]; rfl), List.mem_cons, not_or]
    exact ⟨(fun h ↦ by contradiction), ih⟩

theorem paired_append_cons {u : UInt16} (h : (isLead u || isTrail u) = false) {s t : Utf16} :
    Paired (s ++ u :: t) ↔ Paired s ∧ Paired t := by
  constructor
  · intro hpaired
    have hnone := characters_of_paired hpaired
    rw [characters_append_cons h, List.mem_append, List.mem_cons, not_or, not_or] at hnone
    exact ⟨paired_of_characters hnone.1, paired_of_characters hnone.2.2⟩
  · rintro ⟨hs, ht⟩
    exact hs.append (.single h ht)

/-! ## Paths -/

/-- A unit that is written as it is. -/
theorem encodedPath_append_kept {u : UInt16} {b : UInt8} (hu : (isLead u || isTrail u) = false)
    (hbytes : characterBytes u.toNat = [b])
    (hkept : escapedByte ['-', '_', '.', '!', '~', '*', '\'', '(', ')', '/'] b = [u])
    (before behind : Utf16) :
    encodedPath (before ++ u :: behind) = encodedPath before ++ u :: encodedPath behind := by
  rw [encodedPath, bytes_append_cons hu, List.flatMap_append, List.flatMap_append, hbytes,
    List.flatMap_singleton, hkept, encodedPath, encodedPath, List.append_assoc,
      List.singleton_append]

theorem encodedPath_append_slash (part rest : Utf16) :
    encodedPath (part ++ 0x2F :: rest) = encodedPath part ++ 0x2F :: encodedPath rest :=
  encodedPath_append_kept (b := 0x2F) (by decide) rfl rfl part rest

/-- No unit but a few comes into a path by writing it. -/
theorem notMem_encodedPath {u : UInt16} (halphanumeric : isAlphanumeric u.toNat = false)
    (hpercent : u ≠ 0x25) (hsmall : u.toNat < 0x80) {path : Utf16} (h : u ∉ path) :
    u ∉ encodedPath path := by
  intro hmem
  rcases mem_escaped hmem with hplain | ⟨mark, -, -, hbyte⟩ | hpercent'
  · exact absurd (halphanumeric.symm.trans hplain) nofun
  · have hvalue : u.toNat.toUInt8.toNat = u.toNat := toNat_toUInt8 (by omega)
    have hunit := mem_of_mem_bytes (by rw [hvalue]; exact hsmall) hbyte
    rw [hvalue] at hunit
    exact h (by rwa [show u.toNat.toUInt16 = u from UInt16.ofNat_toNat] at hunit)
  · exact hpercent hpercent'

theorem encodedPath_ne_nil {path : Utf16} (h : path ≠ []) : encodedPath path ≠ [] := by
  have hcharacter : ∀ c, characterBytes c ≠ [] := by
    intro c
    rw [characterBytes]
    split_ifs <;> exact List.cons_ne_nil _ _
  have hbyte : ∀ marks b, escapedByte marks b ≠ [] := by
    intro marks b
    rw [escapedByte]
    split_ifs <;> exact List.cons_ne_nil _ _
  intro hnil
  obtain ⟨c, hc⟩ := List.exists_mem_of_ne_nil _ (characters_ne_nil h)
  obtain ⟨b, hb⟩ := List.exists_mem_of_ne_nil _ (hcharacter (c.getD 0xFFFD))
  rw [encodedPath, List.flatMap_eq_nil_iff] at hnil
  exact hbyte _ b (hnil b (List.mem_flatMap.2 ⟨c, hc, hb⟩))

theorem encodedPath_of_part {part : Utf16} (h : 0x2F ∉ part) :
    encodedPath part = encodedPart part := by
  rw [encodedPath, encodedPart]
  refine List.flatMap_congr fun b hb ↦ ?_
  have hslash : b.toNat ≠ 0x2F := by
    intro hb'
    have hmem := mem_of_mem_bytes (by omega) hb
    rw [hb'] at hmem
    exact h hmem
  rw [escapedByte, escapedByte]
  have hmarks : (['-', '_', '.', '!', '~', '*', '\'', '(', ')', '/'].any (·.toNat = b.toNat)) =
      ['-', '_', '.', '!', '~', '*', '\'', '(', ')'].any (·.toNat = b.toNat) := by
    simp only [List.any_cons, List.any_nil]
    rw [show decide ('/'.toNat = b.toNat) = false from decide_eq_false hslash.symm, Bool.or_false]
  rw [hmarks]

theorem encodedPath_intercalate {parts : List Utf16} (hne : parts ≠ [])
    (h : ∀ part ∈ parts, 0x2F ∉ part) :
    encodedPath ([0x2F].intercalate parts) = [0x2F].intercalate (parts.map encodedPart) := by
  induction parts with
  | nil => exact absurd rfl hne
  | cons part parts ih =>
    rcases parts with _ | ⟨next, parts⟩
    · rw [List.intercalate_singleton, List.map_singleton, List.intercalate_singleton]
      exact encodedPath_of_part (h part List.mem_cons_self)
    · have hrest := ih nofun fun other hother ↦ h other (List.mem_cons_of_mem _ hother)
      rw [List.intercalate_cons_cons, List.append_assoc, List.singleton_append,
        encodedPath_append_slash, hrest, encodedPath_of_part (h part List.mem_cons_self)]
      have hjoin : [0x2F].intercalate
        (encodedPart part :: encodedPart next :: parts.map encodedPart) =
          encodedPart part ++ [0x2F] ++
            [0x2F].intercalate (encodedPart next :: parts.map encodedPart) :=
        List.intercalate_cons_cons
      simp only [List.map_cons]
      rw [hjoin, List.append_assoc]
      rfl

theorem isPathUnit_encodedPath (path : Utf16) : (encodedPath path).all isPathUnit = true := by
  rw [List.all_eq_true]
  intro u hu
  rw [isPathUnit]
  rcases mem_escaped hu with halphanumeric | ⟨mark, hmark, hvalue, -⟩ | rfl
  · rw [halphanumeric, Bool.true_or]
  · rw [Bool.or_eq_true, List.any_eq_true]
    refine .inr ⟨mark, ?_, decide_eq_true hvalue⟩
    simp only [List.mem_cons, List.not_mem_nil, or_false] at hmark ⊢
    tauto
  · decide

theorem slash_notMem_encodedPart (part : Utf16) : 0x2F ∉ encodedPart part := by
  intro hmem
  rcases mem_escaped hmem with halphanumeric | ⟨mark, hmark, hvalue, -⟩ | h
  · exact absurd halphanumeric (by decide)
  · revert hvalue
    simp only [List.mem_cons, List.not_mem_nil, or_false] at hmark
    rcases hmark with rfl | rfl | rfl | rfl | rfl | rfl | rfl | rfl | rfl <;> decide
  · exact absurd h (by decide)

theorem paired_of_mem_splitOn {path part : Utf16} (h : Paired path)
    (hpart : part ∈ path.splitOn 0x2F) :
    Paired part := by
  induction path using @separated_induction UInt16 0x2F with
  | single path hpath =>
    rw [List.splitOn_eq_singleton hpath] at hpart
    rwa [List.mem_singleton.1 hpart]
  | parts first rest hfirst ih =>
    rw [List.splitOn_append_cons_self_of_not_mem hfirst] at hpart
    obtain ⟨hpaired, hrest⟩ := (paired_append_cons (by decide)).1 h
    rcases List.mem_cons.1 hpart with rfl | hpart
    · exact hpaired
    · exact ih hrest hpart

/-- The parts of a path are encoded one by one. -/
theorem intercalate_encodedPart (path : Utf16) :
    [0x2F].intercalate ((path.splitOn 0x2F).map encodedPart) = encodedPath path := by
  rw [← encodedPath_intercalate (List.splitOn_ne_nil _ _) fun part ↦ notMem_of_mem_splitOn]
  rw [List.intercalate_splitOn]

/-- An encoded path refers to what the path refers to. -/
theorem resolveReference_encodedPath {path : Utf16} (h : Paired path) (page : Utf16) :
    resolveReference page (encodedPath path) = resolvePath page path := by
  rw [resolveReference, if_pos (isPathUnit_encodedPath path), resolvePath]
  congr 1
  rw [← intercalate_encodedPart, List.splitOn_intercalate 0x2F _ (by simp), List.map_map]
  · refine (List.map_congr_left fun part hpart ↦ ?_).trans (List.map_id _)
    exact decodeSegment_encodedPart (paired_of_mem_splitOn h hpart)
  · intro encoded hencoded
    obtain ⟨part, -, rfl⟩ := List.mem_map.1 hencoded
    exact slash_notMem_encodedPart part

/-- A path without dot segments leads where it says. -/
theorem navigate_eq (directory : List Utf16) {segments : List Utf16}
    (h : ∀ segment ∈ segments, segment ≠ [0x2E] ∧ segment ≠ [0x2E, 0x2E]) :
    navigate directory segments = some (directory ++ segments) := by
  induction segments generalizing directory with
  | nil => rw [navigate, List.append_nil]
  | cons segment segments ih =>
    obtain ⟨hdot, hdots⟩ := h segment List.mem_cons_self
    rw [navigate]
    rw [if_neg hdot, if_neg hdots, ih _ fun other hother ↦ h other (List.mem_cons_of_mem _ hother),
      List.append_assoc]
    rfl

theorem resolvePath_eq (page : Utf16) {path : Utf16}
    (h : ∀ segment ∈ path.splitOn 0x2F, segment ≠ [] ∧ segment ≠ [0x2E] ∧ segment ≠ [0x2E, 0x2E]) :
    resolvePath page path = some path := by
  rw [resolvePath, resolveSegments, if_neg, if_neg, navigate_eq _ fun segment hsegment ↦
    (h segment hsegment).2, List.nil_append, Option.map_some, List.intercalate_splitOn]
  · intro hhead
    exact (h [] (List.mem_of_mem_head? hhead)).1 rfl
  · intro hempty
    exact (h [] (by rw [hempty]; exact List.mem_singleton_self _)).1 rfl

end Utf16

end Concurrent
