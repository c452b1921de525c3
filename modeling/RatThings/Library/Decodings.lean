import RatThings.Library.Encodings

/-!
# Reading encoded texts

Bytes are read as UTF-8 one by one: a byte that cannot stand where it is ends the character before
it, which becomes the replacement character, and is looked at again. What was written from a string
without unpaired surrogates is read as that string. Base64 is read in either alphabet, and other
characters are skipped.
-/

namespace Concurrent

namespace Utf16

/-! ## UTF-8 -/

/-- A character of which some bytes are missing: its value so far, how many more bytes it has, and
where the next one lies. -/
structure Unfinished where
  value : ℕ
  missing : ℕ
  lower : ℕ
  upper : ℕ
deriving DecidableEq, Repr

/-- The first byte of a character: a character, or the beginning of one. -/
def firstByte (b : ℕ) : List ℕ × Option Unfinished :=
  if b < 0x80 then ([b], none)
  else if 0xC2 ≤ b ∧ b < 0xE0 then ([], some ⟨b - 0xC0, 1, 0x80, 0xBF⟩)
  else if 0xE0 ≤ b ∧ b < 0xF0 then
    ([], some ⟨b - 0xE0, 2, if b = 0xE0 then 0xA0 else 0x80, if b = 0xED then 0x9F else 0xBF⟩)
  else if 0xF0 ≤ b ∧ b < 0xF5 then
    ([], some ⟨b - 0xF0, 3, if b = 0xF0 then 0x90 else 0x80, if b = 0xF4 then 0x8F else 0xBF⟩)
  else ([0xFFFD], none)

/-- The characters of bytes. -/
def readUtf8 : Option Unfinished → List UInt8 → List ℕ
  | none, [] => []
  | some _, [] => [0xFFFD]
  | none, b :: bytes =>
    let first := firstByte b.toNat
    first.1 ++ readUtf8 first.2 bytes
  | some c, b :: bytes =>
    if c.lower ≤ b.toNat ∧ b.toNat ≤ c.upper then
      let value := c.value * 0x40 + (b.toNat - 0x80)
      if c.missing = 1 then value :: readUtf8 none bytes
      else readUtf8 (some ⟨value, c.missing - 1, 0x80, 0xBF⟩) bytes
    else
      let first := firstByte b.toNat
      0xFFFD :: (first.1 ++ readUtf8 first.2 bytes)

/-- The units of a character. -/
def unitsOfCharacter (c : ℕ) : Utf16 :=
  if c < 0x10000 then [c.toUInt16]
  else [(0xD800 + (c - 0x10000) / 0x400).toUInt16, (0xDC00 + (c - 0x10000) % 0x400).toUInt16]

/-- `buffer.toString('utf8')` -/
def ofBytes (bytes : List UInt8) : Utf16 := (readUtf8 none bytes).flatMap unitsOfCharacter

/-- A string without unpaired surrogates. -/
inductive Paired : Utf16 → Prop
  | nil : Paired []
  | single {u : UInt16} {rest : Utf16} : (isLead u || isTrail u) = false → Paired rest →
    Paired (u :: rest)
  | pair {u v : UInt16} {rest : Utf16} : isLead u = true → isTrail v = true → Paired rest →
    Paired (u :: v :: rest)

theorem Paired.append {s t : Utf16} (hs : Paired s) (ht : Paired t) : Paired (s ++ t) := by
  induction hs with
  | nil => exact ht
  | single hu _ ih => exact .single hu ih
  | pair hu hv _ ih => exact .pair hu hv ih

theorem toNat_toUInt8 {n : ℕ} (h : n < 0x100) : n.toUInt8.toNat = n := by
  change n % 2 ^ 8 = n
  exact Nat.mod_eq_of_lt h

theorem readUtf8_last {v lower upper d : ℕ} (hd : d < 0x40) (hlower : lower ≤ 0x80 + d)
    (hupper : 0x80 + d ≤ upper) (rest : List UInt8) :
    readUtf8 (some ⟨v, 1, lower, upper⟩) ((0x80 + d).toUInt8 :: rest) =
      (v * 0x40 + d) :: readUtf8 none rest := by
  rw [readUtf8, toNat_toUInt8 (by omega), if_pos ⟨hlower, hupper⟩]
  simp

theorem readUtf8_more {v missing lower upper d : ℕ} (hd : d < 0x40) (hlower : lower ≤ 0x80 + d)
    (hupper : 0x80 + d ≤ upper) (rest : List UInt8) :
    readUtf8 (some ⟨v, missing + 2, lower, upper⟩) ((0x80 + d).toUInt8 :: rest) =
      readUtf8 (some ⟨v * 0x40 + d, missing + 1, 0x80, 0xBF⟩) rest := by
  rw [readUtf8, toNat_toUInt8 (by omega), if_pos ⟨hlower, hupper⟩]
  simp

theorem readUtf8_characterBytes {c : ℕ} (hc : c < 0xD800 ∨ 0xE000 ≤ c ∧ c < 0x110000)
    (rest : List UInt8) :
    readUtf8 none (characterBytes c ++ rest) = c :: readUtf8 none rest := by
  rw [characterBytes]
  split
  · next h => 
    rw [List.singleton_append, readUtf8, toNat_toUInt8 (by omega), firstByte, if_pos h]
    rfl
  split
  · next hlow h =>
    have hfirst : firstByte (0xC0 + c / 0x40) = ([], some ⟨c / 0x40, 1, 0x80, 0xBF⟩) := by
      rw [firstByte, if_neg (by omega), if_pos (by omega), Nat.add_sub_cancel_left]
    rw [List.cons_append, List.singleton_append, readUtf8, toNat_toUInt8 (by omega), hfirst]
    dsimp only
    rw [List.nil_append, readUtf8_last (by omega) (by omega) (by omega)]
    congr 1
    omega
  split
  · next hlow hmiddle h =>
    have hfirst : firstByte (0xE0 + c / 0x1000) = ([], some ⟨c / 0x1000, 2,
        if 0xE0 + c / 0x1000 = 0xE0 then 0xA0 else 0x80,
        if 0xE0 + c / 0x1000 = 0xED then 0x9F else 0xBF⟩) := by
      rw [firstByte, if_neg (by omega), if_neg (by omega), if_pos (by omega),
        Nat.add_sub_cancel_left]
    rw [List.cons_append, List.cons_append, List.singleton_append, readUtf8,
      toNat_toUInt8 (by omega), hfirst]
    dsimp only
    rw [List.nil_append, readUtf8_more (by omega) (by split <;> omega) (by split <;> omega),
      readUtf8_last (by omega) (by omega) (by omega)]
    congr 1
    omega
  · next hlow hmiddle hhigh =>
    have hfirst : firstByte (0xF0 + c / 0x40000) = ([], some ⟨c / 0x40000, 3,
        if 0xF0 + c / 0x40000 = 0xF0 then 0x90 else 0x80,
        if 0xF0 + c / 0x40000 = 0xF4 then 0x8F else 0xBF⟩) := by
      rw [firstByte, if_neg (by omega), if_neg (by omega), if_neg (by omega), if_pos (by omega),
        Nat.add_sub_cancel_left]
    rw [List.cons_append, List.cons_append, List.cons_append, List.singleton_append, readUtf8,
      toNat_toUInt8 (by omega), hfirst]
    dsimp only
    rw [List.nil_append, readUtf8_more (by omega) (by split <;> omega) (by split <;> omega),
      readUtf8_more (by omega) (by omega) (by omega),
      readUtf8_last (by omega) (by omega) (by omega)]
    congr 1
    omega

theorem bytes_single {u : UInt16} (h : (isLead u || isTrail u) = false) (rest : Utf16) :
    bytes (u :: rest) = characterBytes u.toNat ++ bytes rest := by
  rcases rest with _ | ⟨v, rest⟩
  · simp [bytes, characters, single, h]
  · have hlead : isLead u = false := (Bool.or_eq_false_iff.mp h).1
    rw [bytes, characters, hlead]
    simp [single, h, bytes]

theorem bytes_pair {u v : UInt16} (hu : isLead u = true) (hv : isTrail v = true) (rest : Utf16) :
    bytes (u :: v :: rest) = characterBytes (paired u v) ++ bytes rest := by
  have hpair : (isLead u && isTrail v) = true := by rw [hu, hv, Bool.and_self]
  rw [bytes, bytes, characters, if_pos hpair, List.flatMap_cons, Option.getD_some]

theorem isLead_iff {u : UInt16} : isLead u = true ↔ 0xD800 ≤ u.toNat ∧ u.toNat < 0xDC00 := by
  rw [isLead, Bool.and_eq_true, decide_eq_true_eq, decide_eq_true_eq, UInt16.le_iff_toNat_le,
    UInt16.lt_iff_toNat_lt]
  rfl

theorem isTrail_iff {u : UInt16} : isTrail u = true ↔ 0xDC00 ≤ u.toNat ∧ u.toNat < 0xE000 := by
  rw [isTrail, Bool.and_eq_true, decide_eq_true_eq, decide_eq_true_eq, UInt16.le_iff_toNat_le,
    UInt16.lt_iff_toNat_lt]
  rfl

theorem unitsOfCharacter_single (u : UInt16) : unitsOfCharacter u.toNat = [u] := by
  rw [unitsOfCharacter, if_pos u.toNat_lt]
  simp

theorem unitsOfCharacter_paired {u v : UInt16} (hu : isLead u = true) (hv : isTrail v = true) :
    unitsOfCharacter (paired u v) = [u, v] := by
  have hlead := isLead_iff.mp hu
  have htrail := isTrail_iff.mp hv
  have hvalue : paired u v = 0x10000 + (u.toNat - 0xD800) * 0x400 + (v.toNat - 0xDC00) := rfl
  have hfirst : 0xD800 + (paired u v - 0x10000) / 0x400 = u.toNat := by omega
  have hsecond : 0xDC00 + (paired u v - 0x10000) % 0x400 = v.toNat := by omega
  rw [unitsOfCharacter, if_neg (by omega), hfirst, hsecond]
  simp

/-- **A string without unpaired surrogates is read from its bytes.** -/
theorem ofBytes_bytes {s : Utf16} (h : Paired s) : ofBytes (bytes s) = s := by
  induction h with
  | nil => rfl
  | @single u rest hu _ ih =>
    have hrange : u.toNat < 0xD800 ∨ 0xE000 ≤ u.toNat ∧ u.toNat < 0x110000 := by
      have hlt := u.toNat_lt
      rw [Bool.or_eq_false_iff, ← Bool.not_eq_true, ← Bool.not_eq_true, isLead_iff,
        isTrail_iff] at hu
      omega
    rw [ofBytes, bytes_single hu, readUtf8_characterBytes hrange, List.flatMap_cons,
      unitsOfCharacter_single]
    rw [ofBytes] at ih
    rw [ih]
    rfl
  | @pair u v rest hu hv _ ih =>
    have hlead := isLead_iff.mp hu
    have htrail := isTrail_iff.mp hv
    have hvalue : paired u v = 0x10000 + (u.toNat - 0xD800) * 0x400 + (v.toNat - 0xDC00) := rfl
    rw [ofBytes, bytes_pair hu hv, readUtf8_characterBytes (.inr (by omega)), List.flatMap_cons,
      unitsOfCharacter_paired hu hv]
    rw [ofBytes] at ih
    rw [ih]
    rfl

/-! ## Any string -/

/-- The string that is read from the bytes of this one: the replacement character stands for each
surrogate outside a pair. -/
def wellFormed (s : Utf16) : Utf16 :=
  (characters s).flatMap fun c ↦ unitsOfCharacter (c.getD 0xFFFD)

/-- A character of a string is one that bytes can be read as. -/
theorem valid_of_mem_characters {s : Utf16} {c : ℕ} (h : some c ∈ characters s) :
    c < 0xD800 ∨ 0xE000 ≤ c ∧ c < 0x110000 := by
  have hsingle : ∀ u, some c = single u → c < 0xD800 ∨ 0xE000 ≤ c ∧ c < 0x110000 := by
    intro u hu
    rw [single] at hu
    split_ifs at hu with hsurrogate
    obtain rfl := Option.some.inj hu
    have hlt := u.toNat_lt
    rw [Bool.or_eq_true, not_or, isLead_iff, isTrail_iff] at hsurrogate
    omega
  have hpaired : ∀ u v, isLead u = true → isTrail v = true →
      paired u v < 0xD800 ∨ 0xE000 ≤ paired u v ∧ paired u v < 0x110000 := by
    intro u v hu hv
    rw [isLead_iff] at hu
    rw [isTrail_iff] at hv
    have hvalue : paired u v = 0x10000 + (u.toNat - 0xD800) * 0x400 + (v.toNat - 0xDC00) := rfl
    exact .inr (by omega)
  fun_induction characters s with
  | case1 => exact absurd h List.not_mem_nil
  | case2 u => exact hsingle u (List.mem_singleton.1 h)
  | case3 u v rest hpair ih =>
    obtain ⟨hu, hv⟩ := Bool.and_eq_true_iff.1 hpair
    rcases List.mem_cons.1 h with hc | hrest
    · rw [Option.some.inj hc]
      exact hpaired u v hu hv
    · exact ih hrest
  | case4 u v rest hpair ih =>
    rcases List.mem_cons.1 h with hc | hrest
    · exact hsingle u hc
    · exact ih hrest

theorem ofBytes_bytes_eq (s : Utf16) : ofBytes (bytes s) = wellFormed s := by
  have hread : ∀ cs : List (Option ℕ), (∀ c, some c ∈ cs → c < 0xD800 ∨ 0xE000 ≤ c ∧ c < 0x110000) →
      readUtf8 none (cs.flatMap fun c ↦ characterBytes (c.getD 0xFFFD)) =
        cs.map fun c ↦ c.getD 0xFFFD := by
    intro cs hcs
    induction cs with
    | nil => rfl
    | cons c cs ih =>
      have hc : c.getD 0xFFFD < 0xD800 ∨ 0xE000 ≤ c.getD 0xFFFD ∧ c.getD 0xFFFD < 0x110000 := by
        rcases c with _ | c
        · rw [Option.getD_none]
          omega
        · exact hcs c List.mem_cons_self
      rw [List.flatMap_cons, readUtf8_characterBytes hc,
        ih fun c hmem ↦ hcs c (List.mem_cons_of_mem _ hmem), List.map_cons]
  rw [ofBytes, bytes, hread _ fun c ↦ valid_of_mem_characters, List.flatMap_map, wellFormed]

/-- A unit that is no surrogate separates the characters around it. -/
theorem characters_append_cons {u : UInt16} (h : (isLead u || isTrail u) = false) (s t : Utf16) :
    characters (s ++ u :: t) = characters s ++ some u.toNat :: characters t := by
  have hu : single u = some u.toNat := by rw [single, h]; rfl
  obtain ⟨hlead, htrail⟩ := Bool.or_eq_false_iff.1 h
  have hfirst : ∀ t, characters (u :: t) = some u.toNat :: characters t := by
    intro t
    rcases t with _ | ⟨v, t⟩
    · simp [characters, hu]
    · rw [characters, hlead, Bool.false_and, if_neg nofun, hu]
  fun_induction characters s with
  | case1 => exact hfirst t
  | case2 v =>
    rw [List.singleton_append, characters, htrail, Bool.and_false, if_neg nofun, hfirst]
    rfl
  | case3 v w rest hpair ih =>
    rw [List.cons_append, List.cons_append, characters, if_pos hpair, ih]
    rfl
  | case4 v w rest hpair ih =>
    rw [List.cons_append, List.cons_append, characters, if_neg hpair, ← List.cons_append, ih]
    rfl

theorem bytes_append_cons {u : UInt16} (h : (isLead u || isTrail u) = false) (s t : Utf16) :
    bytes (s ++ u :: t) = bytes s ++ characterBytes u.toNat ++ bytes t := by
  rw [bytes, characters_append_cons h, List.flatMap_append, List.flatMap_cons, bytes, bytes]
  simp

theorem wellFormed_append_cons {u : UInt16} (h : (isLead u || isTrail u) = false) (s t : Utf16) :
    wellFormed (s ++ u :: t) = wellFormed s ++ u :: wellFormed t := by
  rw [wellFormed, characters_append_cons h, List.flatMap_append, List.flatMap_cons, wellFormed,
    wellFormed, Option.getD_some, unitsOfCharacter_single]
  rfl

/-- Reading a string anew brings no new ASCII unit into it. -/
theorem mem_of_mem_wellFormed {s : Utf16} {u : UInt16} (hu : u.toNat < 0x80)
    (h : u ∈ wellFormed s) :
    u ∈ s := by
  have hsingle : ∀ v, u ∈ unitsOfCharacter ((single v).getD 0xFFFD) → u = v := by
    intro v hv
    rw [single] at hv
    split_ifs at hv
    · obtain rfl : u = 0xFFFD := by simpa [unitsOfCharacter] using hv
      exact absurd hu (by decide)
    · rw [Option.getD_some, unitsOfCharacter_single] at hv
      exact List.mem_singleton.1 hv
  rw [wellFormed] at h
  fun_induction characters s with
  | case1 => exact absurd h List.not_mem_nil
  | case2 v =>
    rw [List.flatMap_singleton] at h
    exact List.mem_singleton.2 (hsingle v h)
  | case3 v w rest hpair ih =>
    rw [List.flatMap_cons, List.mem_append] at h
    rcases h with h | h
    · obtain ⟨hlead, htrail⟩ := Bool.and_eq_true_iff.1 hpair
      rw [Option.getD_some, unitsOfCharacter_paired hlead htrail, List.mem_pair] at h
      rw [isLead_iff] at hlead
      rw [isTrail_iff] at htrail
      rcases h with rfl | rfl
      · omega
      · omega
    · exact List.mem_cons_of_mem _ (List.mem_cons_of_mem _ (ih h))
  | case4 v w rest hpair ih =>
    rw [List.flatMap_cons, List.mem_append] at h
    rcases h with h | h
    · exact List.mem_cons.2 (.inl (hsingle v h))
    · exact List.mem_cons_of_mem _ (ih h)

theorem paired_of_characters {s : Utf16} (h : none ∉ characters s) : Paired s := by
  have hsingle : ∀ u, none ≠ single u → (isLead u || isTrail u) = false := by
    intro u hu
    rcases hsurrogate : isLead u || isTrail u with _ | _
    · rfl
    · rw [single, hsurrogate, if_pos rfl] at hu
      exact absurd rfl hu
  fun_induction characters s with
  | case1 => exact .nil
  | case2 u => exact .single (hsingle u fun hu ↦ h (List.mem_singleton.2 hu)) .nil
  | case3 u v rest hpair ih =>
    obtain ⟨hu, hv⟩ := Bool.and_eq_true_iff.1 hpair
    exact .pair hu hv (ih fun hmem ↦ h (List.mem_cons_of_mem _ hmem))
  | case4 u v rest _ ih =>
    exact .single (hsingle u fun hu ↦ h (List.mem_cons.2 (.inl hu)))
      (ih fun hmem ↦ h (List.mem_cons_of_mem _ hmem))

/-! ## JSON texts are without unpaired surrogates -/

theorem isLead_isTrail_of_lt {u : UInt16} (h : u.toNat < 0xD800) :
    (isLead u || isTrail u) = false := by
  rw [Bool.or_eq_false_iff, ← Bool.not_eq_true, ← Bool.not_eq_true, isLead_iff, isTrail_iff]
  omega

theorem Paired.of_small {s : Utf16} (h : s.all (·.toNat < 0xD800) = true) : Paired s := by
  induction s with
  | nil => exact .nil
  | cons u s ih =>
    rw [List.all_cons, Bool.and_eq_true, decide_eq_true_eq] at h
    exact .single (isLead_isTrail_of_lt h.1) (ih h.2)

theorem toNat_digit {n : ℕ} (hn : n < 16) : (digit 'a' n).toNat < 0xD800 := by
  have hdigits : ∀ n < 16, (digit 'a' n).toNat < 0xD800 := by decide
  exact hdigits n hn

theorem paired_unicodeEscape {n : ℕ} (hn : n < 0x10000) : Paired (unicodeEscape n) := by
  refine .append (.of_small (by decide)) (.of_small ?_)
  simp only [List.all_cons, List.all_nil, Bool.and_true, Bool.and_eq_true, decide_eq_true_eq]
  exact ⟨toNat_digit (by omega), toNat_digit (by omega), toNat_digit (by omega),
    toNat_digit (by omega)⟩

theorem paired_jsonSingle (u : UInt16) : Paired (jsonSingle u) := by
  rw [jsonSingle]
  split
  · exact paired_unicodeEscape u.toNat_lt
  next hplain =>
  rw [jsonUnit]
  split
  case h_8 =>
    split
    · exact paired_unicodeEscape u.toNat_lt
    · exact .single (Bool.eq_false_iff.mpr hplain) .nil
  all_goals exact .of_small (by decide)

theorem paired_jsonUnits (text : Utf16) : Paired (jsonUnits text) := by
  fun_induction jsonUnits text with
  | case1 => exact .nil
  | case2 u => exact paired_jsonSingle u
  | case3 u v text hpair ih =>
    obtain ⟨hu, hv⟩ := Bool.and_eq_true_iff.mp hpair
    exact .pair hu hv ih
  | case4 u v text _ ih => exact (paired_jsonSingle u).append ih

/-- A printed string has no unpaired surrogates, whatever it was printed from. -/
theorem paired_stringify (text : Utf16) : Paired (stringify text) :=
  (Paired.of_small (by decide)).append (paired_jsonUnits text) |>.append (.of_small (by decide))

/-! ## Texts with insertions -/

/-- Only units of the ASCII range. -/
def Ascii (s : Utf16) : Prop := ∀ u ∈ s, u.toNat < 0x80

theorem Ascii.append {s t : Utf16} (hs : Ascii s) (ht : Ascii t) : Ascii (s ++ t) := by
  intro u hu
  rcases List.mem_append.1 hu with hu | hu
  · exact hs u hu
  · exact ht u hu

theorem wellFormed_nil : wellFormed [] = [] := rfl

theorem Ascii.wellFormed_append {s : Utf16} (h : Ascii s) (t : Utf16) :
    wellFormed (s ++ t) = s ++ wellFormed t := by
  induction s with
  | nil => rfl
  | cons u s ih =>
    have hu : u.toNat < 0x80 := h u List.mem_cons_self
    have hcons := wellFormed_append_cons (isLead_isTrail_of_lt (u := u) (by omega)) [] (s ++ t)
    rw [List.nil_append, wellFormed_nil, List.nil_append] at hcons
    rw [List.cons_append, hcons, ih fun v hv ↦ h v (List.mem_cons_of_mem _ hv), List.cons_append]

theorem Ascii.wellFormed_eq {s : Utf16} (h : Ascii s) : wellFormed s = s := by
  have happend := h.wellFormed_append []
  rwa [wellFormed_nil, List.append_nil] at happend

/-- Pieces of a text, each a fixed text and what is inserted behind it. -/
def mixed (pieces : List (Utf16 × Utf16)) : Utf16 :=
  pieces.flatMap fun piece ↦ piece.1 ++ piece.2

theorem mixed_cons (fixed inserted : Utf16) (pieces : List (Utf16 × Utf16)) :
    mixed ((fixed, inserted) :: pieces) = fixed ++ (inserted ++ mixed pieces) := by
  rw [mixed, List.flatMap_cons, List.append_assoc, mixed]

/-- Reading a text anew concerns what is inserted. -/
theorem wellFormed_mixed {pieces : List (Utf16 × Utf16)}
    (h : ∀ piece ∈ pieces, Ascii piece.1 ∧ piece.1 ≠ []) :
    wellFormed (mixed pieces) = mixed (pieces.map fun piece ↦ (piece.1, wellFormed piece.2)) := by
  induction pieces with
  | nil => rfl
  | cons piece pieces ih =>
    have hrest := ih fun other hother ↦ h other (List.mem_cons_of_mem _ hother)
    obtain ⟨fixed, inserted⟩ := piece
    rw [List.map_cons, mixed_cons, mixed_cons, ← hrest,
      Ascii.wellFormed_append (h _ List.mem_cons_self).1]
    congr 1
    rcases pieces with _ | ⟨⟨_ | ⟨u, next⟩, more⟩, pieces⟩
    · rw [mixed, List.flatMap_nil, List.append_nil, wellFormed_nil, List.append_nil]
    · exact absurd rfl (h ([], more) (by simp)).2
    · have hnext : Ascii (u :: next) := (h (u :: next, more) (by simp)).1
      have hu : u.toNat < 0x80 := hnext u List.mem_cons_self
      rw [mixed_cons, hnext.wellFormed_append, List.cons_append,
        wellFormed_append_cons (isLead_isTrail_of_lt (by omega)), List.cons_append]
      congr 2
      exact Ascii.wellFormed_append (fun v hv ↦ hnext v (List.mem_cons_of_mem _ hv)) _

/-! ## Base64 -/

/-- The value of a unit in either alphabet. -/
def sextetOf (u : UInt16) : Option ℕ :=
  let n := u.toNat
  if 0x41 ≤ n ∧ n ≤ 0x5A then some (n - 0x41)
  else if 0x61 ≤ n ∧ n ≤ 0x7A then some (n - 0x61 + 26)
  else if 0x30 ≤ n ∧ n ≤ 0x39 then some (n - 0x30 + 52)
  else if n = 0x2D ∨ n = 0x2B then some 62
  else if n = 0x5F ∨ n = 0x2F then some 63
  else none

/-- The bytes that are complete. -/
def ofSextets : List ℕ → List UInt8
  | a :: b :: c :: d :: rest =>
    (a * 4 + b / 16).toUInt8 :: (b % 16 * 16 + c / 4).toUInt8 :: (c % 4 * 64 + d).toUInt8 ::
      ofSextets rest
  | [a, b, c] => [(a * 4 + b / 16).toUInt8, (b % 16 * 16 + c / 4).toUInt8]
  | [a, b] => [(a * 4 + b / 16).toUInt8]
  | _ => []

/-- `Buffer.from(text, 'base64url')`. Units that are in neither alphabet are skipped. -/
def fromBase64url (text : Utf16) : List UInt8 := ofSextets (text.filterMap sextetOf)

theorem sextetOf_sextetUnit : ∀ n < 64, sextetOf (sextetUnit '-' '_' n) = some n := by decide

theorem lt_of_mem_sextets {bytes : List UInt8} : ∀ n ∈ sextets bytes, n < 64 := by
  fun_induction sextets bytes with
  | case1 => exact fun _ h ↦ nomatch h
  | case2 a =>
    have ha : a.toNat < 256 := a.toNat_lt
    simp only [List.forall_mem_cons]
    exact ⟨by omega, by omega, fun _ h ↦ nomatch h⟩
  | case3 a b =>
    have ha : a.toNat < 256 := a.toNat_lt
    have hb : b.toNat < 256 := b.toNat_lt
    simp only [List.forall_mem_cons]
    exact ⟨by omega, by omega, by omega, fun _ h ↦ nomatch h⟩
  | case4 a b c rest ih =>
    have ha : a.toNat < 256 := a.toNat_lt
    have hb : b.toNat < 256 := b.toNat_lt
    have hc : c.toNat < 256 := c.toNat_lt
    simp only [List.forall_mem_cons]
    exact ⟨by omega, by omega, by omega, by omega, ih⟩

theorem toUInt8_toNat {n : ℕ} {b : UInt8} (h : n = b.toNat) : n.toUInt8 = b := by
  rw [h]
  exact UInt8.ofNat_toNat

theorem ofSextets_sextets (bytes : List UInt8) : ofSextets (sextets bytes) = bytes := by
  fun_induction sextets bytes with
  | case1 => rfl
  | case2 a =>
    rw [ofSextets, toUInt8_toNat (b := a) (by omega)]
  | case3 a b =>
    have hb : b.toNat < 256 := b.toNat_lt
    rw [ofSextets, toUInt8_toNat (b := a) (by omega), toUInt8_toNat (b := b) (by omega)]
  | case4 a b c rest ih =>
    have hb : b.toNat < 256 := b.toNat_lt
    have hc : c.toNat < 256 := c.toNat_lt
    rw [ofSextets, toUInt8_toNat (b := a) (by omega), toUInt8_toNat (b := b) (by omega),
      toUInt8_toNat (b := c) (by omega), ih]

/-- **Bytes are read from their text.** -/
theorem fromBase64url_base64url (bytes : List UInt8) : fromBase64url (base64url bytes) = bytes := by
  have hread : (base64url bytes).filterMap sextetOf = sextets bytes := by
    have hunits : ∀ n ∈ sextets bytes, (sextetOf ∘ sextetUnit '-' '_') n = some n :=
      fun n hn ↦ sextetOf_sextetUnit n (lt_of_mem_sextets n hn)
    rw [base64url, List.filterMap_map, List.filterMap_congr hunits, List.filterMap_some]
  rw [fromBase64url, hread, ofSextets_sextets]

end Utf16

end Concurrent
